import Mathlib.Data.List.Pairwise
import AetherVM.Engine.OptIn
import AetherVM.Engine.Region

/-!
# binary の読み込み（`BinaryEngine::orchBinary`、`BinaryEngine::execute`）

`orchBinary` は、section の大きさの和を page に切り上げた大きさだけを、`imageBase` から commit する。section は
それぞれの番地に写されるので、section のあいだに隙間があると、後ろの section は commit した範囲からはみ出す。
commit の失敗も、写すことの失敗も、見ない。

`execute(target)` は、まだ何も commit していないことを「まだ読み込んでいない」ことの印に使う。
-/

namespace AetherVM

open Infra Orchestrator

/-- engine に付けた binary。`loaded` は lift と `encode` の読むもの、`addrBuff` は section の中身の番地である。 -/
structure AttachedBinary where
  imageBase : UInt64
  sections : List BinarySection
  addrBuff : UInt64 → UInt64
  loaded : LoadedBinary

/-- section の大きさの和を、page に切り上げたもの。 -/
def sectionsTotal (page : UInt64) (sections : List BinarySection) : UInt64 :=
  alignUp (sections.foldl (fun size sect => size + sect.size) 0) page

/-- `orchBinary` の commit。`success` は `page_commit` の成否である。 -/
def loadCall (page : UInt64) (bin : AttachedBinary) (addend : UInt64) (success : Bool) :
    CommitCall :=
  ⟨bin.imageBase + addend, sectionsTotal page bin.sections, true, true, success⟩

/-- section の中身。 -/
def sectionBytes (bin : AttachedBinary) (host : HostMemory) (sect : BinarySection) : Bytes :=
  (List.range sect.size.toNat).map fun i => host.byte (bin.addrBuff sect.addr + UInt64.ofNat i)

/-- section を写す loop。写せたかどうかを順に並べる。 -/
def copySections (m : GuestMemory) (opcode : Option OpcodeBinary) (bin : AttachedBinary)
    (addend : UInt64) : List BinarySection → HostMemory → List Bool × HostMemory
  | [], host => ([], host)
  | sect :: rest, host =>
    if sect.size = 0 then copySections m opcode bin addend rest host
    else
      let (ok, byte) := m.writeMemory opcode host (sect.addr + addend) (sectionBytes bin host sect)
      let (oks, host) := copySections m opcode bin addend rest { host with byte := byte }
      (ok :: oks, host)

/-- `addr` から `buff` を書いた後の中身。 -/
def overwrite (byte : UInt64 → UInt8) (addr : UInt64) (buff : Bytes) : UInt64 → UInt8 :=
  fun x => buff[(x - addr).toNat]?.getD (byte x)

namespace GuestMemory

variable (page : UInt64) (m : GuestMemory) (opcode : Option OpcodeBinary) (bin : AttachedBinary)
  (success : Bool)

/-- `addr` の page が commit 済みであること。 -/
def PageCommitted (addr : UInt64) : Prop :=
  ∃ b, m.Committed b ∧ b.toNat / page.toNat = addr.toNat / page.toNat

/-- commit 済みの page への OS の書き込みは成功し、その範囲だけを書く。 -/
def WritesCommitted (host : HostMemory) : Prop :=
  ∀ byte addr (buff : Bytes), buff ≠ [] →
    (∀ i < buff.length, m.PageCommitted page (addr + UInt64.ofNat i)) →
    host.memoryWrite byte addr buff = (true, overwrite byte addr buff)

/-- section の `i` 番目の byte の、実行時の番地。 -/
def sectionAddr (sect : BinarySection) (i : Nat) : UInt64 :=
  sect.addr + m.guestAvailable + UInt64.ofNat i

/-- 読み込みの後の memory。 -/
def afterLoad : GuestMemory := (m.commit (loadCall page bin m.guestAvailable success)).2

/-- 読み込みの後の memory に section を写した結果。 -/
def copied (host : HostMemory) : List Bool × HostMemory :=
  copySections (m.afterLoad page bin success) opcode bin m.guestAvailable bin.sections host

/--
読み込みの後、section のどの byte も commit 済みの page にあり、空でないどの section も写すことに成功して、
その実行時の番地に section の中身があること。
-/
structure SectionsLoaded (page : UInt64) (m : GuestMemory) (opcode : Option OpcodeBinary)
    (bin : AttachedBinary) (success : Bool) : Prop where
  committed : ∀ sect ∈ bin.sections, ∀ i < sect.size.toNat,
    (m.afterLoad page bin success).PageCommitted page (m.sectionAddr sect i)
  flags : ∀ host, WritesCommitted page (m.afterLoad page bin success) host →
    (m.copied page opcode bin success host).1
      = (bin.sections.filter (·.size ≠ 0)).map fun _ => true
  contents : ∀ host, WritesCommitted page (m.afterLoad page bin success) host →
    ∀ sect ∈ bin.sections, ∀ i < sect.size.toNat,
      (m.copied page opcode bin success host).2.byte (m.sectionAddr sect i)
        = host.byte (bin.addrBuff sect.addr + UInt64.ofNat i)

/--
`orchBinary` の受け取る binary。section は `imageBase` より後に昇順に並んで重ならず、実行時の範囲は address の
上限までに収まる。読む file の buffer は、section の写し先と重ならない。
-/
structure Loadable (m : GuestMemory) (opcode : Option OpcodeBinary) (bin : AttachedBinary) :
    Prop where
  reserved : m.basePointer ≠ 0
  above : ∀ sect ∈ bin.sections, bin.imageBase ≤ sect.addr
  ascending : bin.sections.Pairwise fun s t => s.addr.toNat + s.size.toNat ≤ t.addr.toNat
  fits : ∀ sect ∈ bin.sections,
    m.basePointer.toNat + m.offset.toNat + sect.addr.toNat + sect.size.toNat ≤ 2 ^ 64
  buffers : ∀ sect ∈ bin.sections, ∀ i < sect.size.toNat, ∀ sect' ∈ bin.sections,
    ∀ j < sect'.size.toNat, bin.addrBuff sect.addr + UInt64.ofNat i ≠ m.sectionAddr sect' j
  opcodeBuffers : ∀ b ∈ opcode, ∀ sect ∈ bin.sections,
    b.holds (sect.addr + m.guestAvailable) = true → ∀ i < sect.size.toNat,
    ∀ sect' ∈ bin.sections, ∀ j < sect'.size.toNat,
      b.addrBuff (sect.addr + m.guestAvailable) + UInt64.ofNat i ≠ m.sectionAddr sect' j

/-- `imageBase` から切り上げた和までの範囲が commit されること。 -/
def Accepts : Prop := ¬ m.Rejects (loadCall page bin m.guestAvailable success) ∧ success = true

/-- 今度の commit が `addr` の page に届くこと。 -/
def Reaches (addr : UInt64) : Prop :=
  m.Accepts page bin success ∧ 0 < (sectionsTotal page bin.sections).toNat ∧
    addr.toNat / page.toNat * page.toNat <
      (bin.imageBase + m.guestAvailable).toNat + (sectionsTotal page bin.sections).toNat

/-- section のどの byte の page も、前から commit 済みか、今度の commit が届くこと。 -/
def Covers : Prop := ∀ sect ∈ bin.sections, ∀ i < sect.size.toNat,
  m.PageCommitted page (m.sectionAddr sect i) ∨ m.Reaches page bin success (m.sectionAddr sect i)

/-- `writeMemory` が、空でない section の実行時の番地を、別の番地に直さないこと。 -/
def Direct : Prop := ∀ sect ∈ bin.sections, sect.size ≠ 0 →
  (m.afterLoad page bin success).mappedAddress opcode (sect.addr + m.guestAvailable) sect.size = 0

/-- 空でない section が無いか、範囲が commit されて、どの section も切り上げた和までに終わること。 -/
def Fits : Prop := ∀ sect ∈ bin.sections, sect.size ≠ 0 → m.Accepts page bin success ∧
  (sect.addr - bin.imageBase).toNat + sect.size.toNat ≤ (sectionsTotal page bin.sections).toNat

variable {page m opcode bin success}

theorem size_pos {sect : BinarySection} (h : sect.size ≠ 0) : 0 < sect.size.toNat :=
  Nat.pos_of_ne_zero fun h0 => h (UInt64.toNat_inj.mp h0)

theorem size_ne_zero {sect : BinarySection} {i : Nat} (hi : i < sect.size.toNat) :
    sect.size ≠ 0 := by
  intro h0
  rw [h0] at hi
  exact absurd hi (Nat.not_lt_zero i)

@[simp] theorem basePointer_afterLoad :
    (m.afterLoad page bin success).basePointer = m.basePointer := by
  unfold afterLoad commit
  split <;> rfl

/-! ## section を写す -/

theorem overwrite_of_ne {byte : UInt64 → UInt8} {addr x : UInt64} {buff : Bytes}
    (h : ∀ i < buff.length, x ≠ addr + UInt64.ofNat i) : overwrite byte addr buff x = byte x := by
  have hnone : buff[(x - addr).toNat]? = none := by
    rw [List.getElem?_eq_none_iff]
    by_contra hlt
    refine h (x - addr).toNat (by omega) ?_
    rw [UInt64.ofNat_toNat, UInt64.add_comm, UInt64.sub_add_cancel]
  rw [overwrite, hnone]
  rfl

theorem overwrite_add {byte : UInt64 → UInt8} {addr : UInt64} {buff : Bytes} {i : Nat} {b : UInt8}
    (hlen : buff.length ≤ 2 ^ 64) (hi : buff[i]? = some b) :
    overwrite byte addr buff (addr + UInt64.ofNat i) = b := by
  obtain ⟨hlt, -⟩ := List.getElem?_eq_some_iff.mp hi
  have hoff : (addr + UInt64.ofNat i - addr).toNat = i := by
    rw [UInt64.add_comm, UInt64.add_sub_cancel, UInt64.toNat_ofNat', Nat.mod_eq_of_lt (by omega)]
  rw [overwrite, hoff, hi]
  rfl

theorem length_sectionBytes (bin : AttachedBinary) (host : HostMemory) (sect : BinarySection) :
    (sectionBytes bin host sect).length = sect.size.toNat := by
  simp [sectionBytes]

section Copy

/-- `writeMemory` が section を書く番地。 -/
def landing (m : GuestMemory) (opcode : Option OpcodeBinary) (addend : UInt64)
    (sect : BinarySection) : UInt64 :=
  if m.mappedAddress opcode (sect.addr + addend) sect.size ≠ 0 then
    m.mappedAddress opcode (sect.addr + addend) sect.size
  else sect.addr + addend

variable {addend : UInt64} {sections : List BinarySection} {host : HostMemory}
  {sect : BinarySection}

/-- 写し先の page が commit 済みなら、`writeMemory` は成功して `landing` に書く。 -/
theorem writeMemory_section (hos : WritesCommitted page m host) (hsize : sect.size ≠ 0)
    (h : ∀ i < sect.size.toNat, m.PageCommitted page (sect.addr + addend + UInt64.ofNat i)) :
    m.writeMemory opcode host (sect.addr + addend) (sectionBytes bin host sect)
      = (true, overwrite host.byte (m.landing opcode addend sect) (sectionBytes bin host sect)) := by
  have hlen := length_sectionBytes bin host sect
  unfold writeMemory landing
  rw [hlen, UInt64.ofNat_toNat]
  dsimp only
  split
  · rfl
  · refine hos _ _ _ ?_ fun i hi => h i (hlen ▸ hi)
    intro hnil
    rw [hnil] at hlen
    exact hsize (UInt64.toNat_inj.mp hlen.symm)

/-- 空でない section を一つ写してから残りを写す。 -/
theorem copySections_cons {rest : List BinarySection} (hos : WritesCommitted page m host)
    (hsize : sect.size ≠ 0)
    (h : ∀ i < sect.size.toNat, m.PageCommitted page (sect.addr + addend + UInt64.ofNat i)) :
    copySections m opcode bin addend (sect :: rest) host =
      (true :: (copySections m opcode bin addend rest { host with
          byte := overwrite host.byte (m.landing opcode addend sect)
            (sectionBytes bin host sect) }).1,
        (copySections m opcode bin addend rest { host with
          byte := overwrite host.byte (m.landing opcode addend sect)
            (sectionBytes bin host sect) }).2) := by
  rw [copySections, if_neg hsize, writeMemory_section hos hsize h]

/-- 写し先の page が commit 済みなら、どの section も写せて、`landing` の外は変わらない。 -/
theorem copySections_frame (hos : WritesCommitted page m host)
    (h : ∀ sect ∈ sections, ∀ i < sect.size.toNat,
      m.PageCommitted page (sect.addr + addend + UInt64.ofNat i)) :
    (copySections m opcode bin addend sections host).1
        = (sections.filter (·.size ≠ 0)).map (fun _ => true) ∧
      ∀ x, (∀ sect ∈ sections, ∀ i < sect.size.toNat,
        x ≠ m.landing opcode addend sect + UInt64.ofNat i) →
        (copySections m opcode bin addend sections host).2.byte x = host.byte x := by
  induction sections generalizing host with
  | nil => exact ⟨rfl, fun _ _ => rfl⟩
  | cons sect rest ih =>
    have hrest : ∀ sect ∈ rest, ∀ i < sect.size.toNat,
        m.PageCommitted page (sect.addr + addend + UInt64.ofNat i) :=
      fun sect hs => h sect (List.mem_cons_of_mem _ hs)
    by_cases hsize : sect.size = 0
    · obtain ⟨hflags, hframe⟩ := ih hos hrest
      rw [copySections, if_pos hsize, List.filter_cons_of_neg (by simp [hsize])]
      exact ⟨hflags, fun x hx => hframe x fun s hs => hx s (List.mem_cons_of_mem _ hs)⟩
    · rw [copySections_cons hos hsize (h sect List.mem_cons_self),
        List.filter_cons_of_pos (by simp [hsize]), List.map_cons]
      -- 写した後も OS の書き込みは変わらない
      have hos' : WritesCommitted page m { host with
          byte := overwrite host.byte (m.landing opcode addend sect)
            (sectionBytes bin host sect) } := hos
      obtain ⟨hflags, hframe⟩ := ih hos' hrest
      refine ⟨congrArg _ hflags, fun x hx => ?_⟩
      rw [hframe x fun s hs => hx s (List.mem_cons_of_mem _ hs)]
      refine overwrite_of_ne fun i hi => hx sect List.mem_cons_self i ?_
      rwa [length_sectionBytes] at hi

/-- 番地を直さず、写し先が重ならないなら、写した先に section の中身がある。 -/
theorem copySections_contents (hos : WritesCommitted page m host)
    (h : ∀ sect ∈ sections, ∀ i < sect.size.toNat,
      m.PageCommitted page (sect.addr + addend + UInt64.ofNat i))
    (hland : ∀ sect ∈ sections, sect.size ≠ 0 → m.landing opcode addend sect = sect.addr + addend)
    (happart : sections.Pairwise fun s t => ∀ i < s.size.toNat, ∀ j < t.size.toNat,
      s.addr + addend + UInt64.ofNat i ≠ t.addr + addend + UInt64.ofNat j)
    (hsource : ∀ s ∈ sections, ∀ i < s.size.toNat, ∀ t ∈ sections, ∀ j < t.size.toNat,
      bin.addrBuff s.addr + UInt64.ofNat i ≠ t.addr + addend + UInt64.ofNat j) :
    ∀ sect ∈ sections, ∀ i < sect.size.toNat,
      (copySections m opcode bin addend sections host).2.byte (sect.addr + addend + UInt64.ofNat i)
        = host.byte (bin.addrBuff sect.addr + UInt64.ofNat i) := by
  induction sections generalizing host with
  | nil => exact fun sect hs => absurd hs List.not_mem_nil
  | cons s rest ih =>
    obtain ⟨hs, happart⟩ := List.pairwise_cons.mp happart
    have hmem : ∀ {t}, t ∈ rest → t ∈ s :: rest := fun ht => List.mem_cons_of_mem s ht
    have hrest : ∀ sect ∈ rest, ∀ i < sect.size.toNat,
        m.PageCommitted page (sect.addr + addend + UInt64.ofNat i) := fun t ht => h t (hmem ht)
    have hih := fun {host} (hos : WritesCommitted page m host) => ih hos hrest
      (fun t ht => hland t (hmem ht)) happart
      fun t ht i hi u hu => hsource t (hmem ht) i hi u (hmem hu)
    intro sect hsect i hi
    by_cases hsize : s.size = 0
    · rw [copySections, if_pos hsize]
      rcases List.mem_cons.mp hsect with rfl | hsect
      · rw [hsize] at hi
        exact absurd hi (Nat.not_lt_zero i)
      · exact hih hos sect hsect i hi
    · rw [copySections_cons hos hsize (h s List.mem_cons_self), hland s List.mem_cons_self hsize]
      have hos' : WritesCommitted page m { host with
          byte := overwrite host.byte (s.addr + addend) (sectionBytes bin host s) } := hos
      rcases List.mem_cons.mp hsect with rfl | hsect
      · -- 残りの section は、この section の写し先に書かない
        rw [(copySections_frame hos' hrest).2 _ fun t ht j hj => ?_]
        · refine overwrite_add ?_ ?_
          · rw [length_sectionBytes]
            exact Nat.le_of_lt sect.size.toNat_lt
          · simp [sectionBytes, hi]
        · rw [hland t (hmem ht) (size_ne_zero hj)]
          exact hs t ht i hi j hj
      · rw [hih hos' sect hsect i hi]
        refine overwrite_of_ne fun j hj => ?_
        rw [length_sectionBytes] at hj
        exact hsource sect (hmem hsect) i hi s List.mem_cons_self j hj

end Copy

/-! ## commit した範囲 -/

theorem pageCommitted_afterLoad (addr : UInt64) :
    (m.afterLoad page bin success).PageCommitted page addr ↔ m.PageCommitted page addr ∨
      m.Accepts page bin success ∧ ∃ b, b - (bin.imageBase + m.guestAvailable) <
        sectionsTotal page bin.sections ∧ b.toNat / page.toNat = addr.toNat / page.toNat := by
  unfold afterLoad PageCommitted Accepts
  by_cases hrej : m.Rejects (loadCall page bin m.guestAvailable success)
  · rw [commit_of_rejects hrej]
    simp [hrej]
  · simp only [committed_commit hrej, hrej, not_false_eq_true, true_and]
    constructor
    · rintro ⟨b, ⟨hsuccess, hb⟩ | hb, hpage⟩
      · exact .inr ⟨hsuccess, b, hb, hpage⟩
      · exact .inl ⟨b, hb, hpage⟩
    · rintro (⟨b, hb, hpage⟩ | ⟨hsuccess, b, hb, hpage⟩)
      · exact ⟨b, .inr hb, hpage⟩
      · exact ⟨b, .inl ⟨hsuccess, hb⟩, hpage⟩

/-- `start` より後の番地の page に範囲がかかるのは、page の先頭が範囲の終わりより前のときに限る。 -/
theorem exists_page_iff (hpage : PageSize page) {start total addr : UInt64}
    (hle : start.toNat ≤ addr.toNat) :
    (∃ b, b - start < total ∧ b.toNat / page.toNat = addr.toNat / page.toNat) ↔
      0 < total.toNat ∧ addr.toNat / page.toNat * page.toNat < start.toNat + total.toNat := by
  have hpos := hpage.pos
  have haddr := addr.toNat_lt
  have hfloor : addr.toNat / page.toNat * page.toNat ≤ addr.toNat := Nat.div_mul_le_self _ _
  constructor
  · rintro ⟨b, hb, heq⟩
    have hb64 := b.toNat_lt
    have hstart := start.toNat_lt
    have hbfloor : b.toNat / page.toNat * page.toNat ≤ b.toNat := Nat.div_mul_le_self _ _
    rw [heq] at hbfloor
    rw [UInt64.lt_iff_toNat_lt, UInt64.toNat_sub] at hb
    omega
  · rintro ⟨htotal, hlt⟩
    -- 範囲の先頭か、page の先頭のうち、後の方の byte を見る
    rcases Nat.le_total start.toNat (addr.toNat / page.toNat * page.toNat) with hge | hge
    · refine ⟨UInt64.ofNat (addr.toNat / page.toNat * page.toNat), ?_, ?_⟩
      · rw [UInt64.lt_iff_toNat_lt, UInt64.toNat_sub, UInt64.toNat_ofNat']
        omega
      · rw [UInt64.toNat_ofNat', Nat.mod_eq_of_lt (by omega), Nat.mul_div_cancel _ hpos]
    · refine ⟨start, ?_, ?_⟩
      · rw [UInt64.sub_self, UInt64.lt_iff_toNat_lt]
        exact htotal
      · refine Nat.le_antisymm (Nat.div_le_div_right hle) ?_
        rw [Nat.le_div_iff_mul_le hpos]
        exact hge

namespace Loadable

variable (h : Loadable m opcode bin) {sect : BinarySection} {i : Nat}

include h

theorem toNat_guestAvailable (hsect : sect ∈ bin.sections) (hsize : sect.size ≠ 0) :
    m.guestAvailable.toNat = m.basePointer.toNat + m.offset.toNat := by
  have hfits := h.fits sect hsect
  have hpos := size_pos hsize
  rw [guestAvailable, UInt64.toNat_add, Nat.mod_eq_of_lt (by omega)]

theorem toNat_sectionAddr (hsect : sect ∈ bin.sections) (hi : i < sect.size.toNat) :
    (m.sectionAddr sect i).toNat
      = m.basePointer.toNat + m.offset.toNat + sect.addr.toNat + i := by
  have hfits := h.fits sect hsect
  have hsize := size_ne_zero hi
  have hstart := h.toNat_guestAvailable hsect hsize
  rw [sectionAddr, UInt64.toNat_add, UInt64.toNat_add, hstart, UInt64.toNat_ofNat']
  omega

/-- `imageBase` の実行時の番地から section までの距離。 -/
theorem toNat_start (hsect : sect ∈ bin.sections) (hsize : sect.size ≠ 0) :
    (bin.imageBase + m.guestAvailable).toNat
      = m.basePointer.toNat + m.offset.toNat + bin.imageBase.toNat := by
  have hfits := h.fits sect hsect
  have habove := UInt64.le_iff_toNat_le.mp (h.above sect hsect)
  have hpos := size_pos hsize
  rw [UInt64.toNat_add, h.toNat_guestAvailable hsect hsize]
  omega

theorem apart : bin.sections.Pairwise fun s t => ∀ i < s.size.toNat, ∀ j < t.size.toNat,
    m.sectionAddr s i ≠ m.sectionAddr t j := by
  refine h.ascending.imp_of_mem fun hs ht hst i hi j hj heq => ?_
  have htoNat := congrArg UInt64.toNat heq
  rw [h.toNat_sectionAddr hs hi, h.toNat_sectionAddr ht hj] at htoNat
  omega

/-- 違う section の写し先は重ならない。 -/
theorem sectionAddr_ne {s t : BinarySection} {j : Nat} (hs : s ∈ bin.sections)
    (ht : t ∈ bin.sections) (hne : s ≠ t) (hi : i < s.size.toNat) (hj : j < t.size.toNat) :
    m.sectionAddr s i ≠ m.sectionAddr t j := by
  have : Std.Symm fun s t : BinarySection => ∀ i < s.size.toNat, ∀ j < t.size.toNat,
      m.sectionAddr s i ≠ m.sectionAddr t j :=
    { symm := fun s t hst j hj i hi => (hst i hi j hj).symm }
  exact h.apart.forall hs ht hne i hi j hj

/-- section のどの byte の page も commit されるのは、`Covers` のときに限る。 -/
theorem committed_iff_covers (hpage : PageSize page) :
    (∀ sect ∈ bin.sections, ∀ i < sect.size.toNat,
      (m.afterLoad page bin success).PageCommitted page (m.sectionAddr sect i)) ↔
      Covers page m bin success := by
  unfold Covers
  refine forall₂_congr fun sect hsect => forall₂_congr fun i hi => ?_
  have hsize := size_ne_zero hi
  have habove := UInt64.le_iff_toNat_le.mp (h.above sect hsect)
  rw [pageCommitted_afterLoad, exists_page_iff hpage]
  · rfl
  · rw [h.toNat_start hsect hsize, h.toNat_sectionAddr hsect hi]
    omega

/-- 直された番地への書き込みは、より前の section の先頭の byte に届かない。 -/
theorem landing_ne (hsect : sect ∈ bin.sections) (hi : i < sect.size.toNat)
    {mem : GuestMemory} (hbase : mem.basePointer = m.basePointer)
    (hmapped : mem.mappedAddress opcode (sect.addr + m.guestAvailable) sect.size ≠ 0)
    {sect' : BinarySection} (hsect' : sect' ∈ bin.sections) (hsize' : sect'.size ≠ 0)
    (hle : sect'.addr.toNat ≤ sect.addr.toNat) :
    m.sectionAddr sect' 0 ≠ mem.landing opcode m.guestAvailable sect + UInt64.ofNat i := by
  have hpos' := size_pos hsize'
  rw [landing, if_pos hmapped]
  unfold mappedAddress at hmapped ⊢
  cases hheld : opcode.filter (·.holds (sect.addr + m.guestAvailable)) with
  | some b =>
    obtain ⟨hb, hholds⟩ := Option.filter_eq_some_iff.mp hheld
    exact (h.opcodeBuffers b hb sect hsect hholds i hi sect' hsect' 0 hpos').symm
  | none =>
    rw [hheld] at hmapped
    dsimp only at hmapped ⊢
    split at hmapped
    · next hvalid =>
      rw [if_pos hvalid]
      intro heq
      have htoNat := congrArg UInt64.toNat heq
      have hstart := h.toNat_sectionAddr hsect (Nat.lt_of_le_of_lt (Nat.zero_le i) hi)
      have hfits := h.fits sect hsect
      have hbase0 : 0 < m.basePointer.toNat :=
        Nat.pos_of_ne_zero fun h0 => h.reserved (UInt64.toNat_inj.mp h0)
      -- `valid` な番地は予約の先頭より後にあるので、足し算は折り返していない
      have hge : m.basePointer.toNat
          ≤ (m.basePointer + (sect.addr + m.guestAvailable)).toNat := by
        simp only [valid, Bool.and_eq_true, decide_eq_true_eq, hbase] at hvalid
        exact UInt64.le_iff_toNat_le.mp hvalid.1.1
      have haddr : m.sectionAddr sect 0 = sect.addr + m.guestAvailable := by
        rw [sectionAddr]
        exact UInt64.add_zero _
      rw [haddr] at hstart
      rw [h.toNat_sectionAddr hsect' hpos', hbase, UInt64.toNat_add, UInt64.toNat_ofNat'] at htoNat
      rw [UInt64.toNat_add, hstart] at hge htoNat
      omega
    · exact absurd rfl hmapped

end Loadable

/-- どの byte の page も commit され、番地が直されなければ、section は読み込まれる。 -/
theorem sectionsLoaded_of_direct (h : Loadable m opcode bin)
    (hcommitted : ∀ sect ∈ bin.sections, ∀ i < sect.size.toNat,
      (m.afterLoad page bin success).PageCommitted page (m.sectionAddr sect i))
    (hdirect : Direct page m opcode bin success) :
    SectionsLoaded page m opcode bin success := by
  refine ⟨hcommitted, fun host hos => (copySections_frame hos hcommitted).1, fun host hos => ?_⟩
  refine copySections_contents hos hcommitted (fun sect hs hsize => ?_) h.apart h.buffers
  rw [landing, if_neg (not_not.mpr (hdirect sect hs hsize))]

/-- 読み込まれたのなら、番地は直されていない。直されたうちの最初の section の先頭には何も書かれないからである。 -/
theorem direct_of_sectionsLoaded (h : Loadable m opcode bin)
    (hload : SectionsLoaded page m opcode bin success) : Direct page m opcode bin success := by
  suffices hall : ∀ n, ∀ sect ∈ bin.sections, sect.addr.toNat = n → sect.size ≠ 0 →
      (m.afterLoad page bin success).mappedAddress opcode (sect.addr + m.guestAvailable)
        sect.size = 0 from fun sect hs => hall _ sect hs rfl
  intro n
  induction n using Nat.strong_induction_on with
  | _ n ih =>
    intro sect hsect hn hsize
    by_contra hmapped
    have hpos := size_pos hsize
    -- 写し先の先頭の byte だけが 1 である memory
    let host : HostMemory := ⟨fun x => if x = m.sectionAddr sect 0 then 1 else 0,
      fun _ _ _ => none, fun byte addr buff => (true, overwrite byte addr buff)⟩
    have hos : WritesCommitted page (m.afterLoad page bin success) host := fun _ _ _ _ _ => rfl
    have hkept : (m.copied page opcode bin success host).2.byte (m.sectionAddr sect 0)
        = host.byte (m.sectionAddr sect 0) := by
      refine (copySections_frame hos hload.committed).2 _ fun s hs i hi => ?_
      have hs0 := size_ne_zero hi
      by_cases hd : (m.afterLoad page bin success).mappedAddress opcode
          (s.addr + m.guestAvailable) s.size = 0
      · -- 直されない section の写し先は、この section と重ならない
        rw [landing, if_neg (not_not.mpr hd)]
        have hne : sect ≠ s := by
          rintro rfl
          exact hmapped hd
        exact h.sectionAddr_ne hsect hs hne hpos hi
      · refine h.landing_ne hs hi basePointer_afterLoad hd hsect hsize ?_
        by_contra hlt
        exact hd (ih s.addr.toNat (by omega) s hs rfl hs0)
    have hcontents := hload.contents host hos sect hsect 0 hpos
    have hne := h.buffers sect hsect 0 hpos sect hsect 0 hpos
    rw [hkept] at hcontents
    simp [host] at hcontents hne
    exact hne hcontents

/-! ## 隙間のある section -/

theorem dvd_sectionsTotal (hpage : PageSize page) (sections : List BinarySection) :
    page.toNat ∣ (sectionsTotal page sections).toNat := by
  rw [sectionsTotal, toNat_alignUp hpage]
  exact Nat.dvd_mul_left _ _

/-- page に揃った終わりでは、page の先頭がその前にあることは、番地がその前にあることである。 -/
theorem floor_lt_iff {p x bound : Nat} (hp : 0 < p) (hdvd : p ∣ bound) :
    x / p * p < bound ↔ x < bound := by
  obtain ⟨k, rfl⟩ := hdvd
  rw [Nat.mul_comm p k, Nat.mul_lt_mul_right hp, Nat.div_lt_iff_lt_mul hp]

/--
`imageBase` が page に揃い、section の行き先がまだ commit されていないなら、どの byte の page も commit されるのは、
どの空でない section も切り上げた和までに終わるときに限る。
-/
theorem covers_iff_fits (hpage : PageSize page) (h : Loadable m opcode bin)
    (haligned : page.toNat ∣ (bin.imageBase + m.guestAvailable).toNat)
    (huntouched : ∀ sect ∈ bin.sections, ∀ i < sect.size.toNat,
      ¬ m.PageCommitted page (m.sectionAddr sect i)) :
    Covers page m bin success ↔ Fits page m bin success := by
  have hdvd := Nat.dvd_add haligned (dvd_sectionsTotal hpage bin.sections)
  unfold Covers Fits
  refine forall₂_congr fun sect hsect => ?_
  have hiff : ∀ i < sect.size.toNat, (m.PageCommitted page (m.sectionAddr sect i) ∨
      m.Reaches page bin success (m.sectionAddr sect i)) ↔ m.Accepts page bin success ∧
        0 < (sectionsTotal page bin.sections).toNat ∧ (sect.addr - bin.imageBase).toNat + i <
          (sectionsTotal page bin.sections).toNat := by
    intro i hi
    have hsize := size_ne_zero hi
    have habove := h.above sect hsect
    have hle := UInt64.le_iff_toNat_le.mp habove
    rw [or_iff_right (huntouched sect hsect i hi), Reaches, floor_lt_iff hpage.pos hdvd,
      h.toNat_start hsect hsize, h.toNat_sectionAddr hsect hi, UInt64.toNat_sub_of_le _ _ habove]
    refine and_congr_right fun _ => and_congr_right fun _ => ?_
    omega
  rw [forall₂_congr hiff]
  constructor
  · intro hall hsize
    have hpos := size_pos hsize
    have hlast := (hall (sect.size.toNat - 1) (by omega)).2.2
    exact ⟨(hall 0 hpos).1, by omega⟩
  · intro hall i hi
    have hsize := size_ne_zero hi
    obtain ⟨haccepts, hend⟩ := hall hsize
    exact ⟨haccepts, by omega, by omega⟩

/-- 予約が 3 GiB 以上の番地にあれば、opcode の binary が無いかぎり、番地は直されない。 -/
theorem direct_of_high (h : Loadable m none bin) (hbase : guestSize ≤ m.basePointer)
    (hoff : (m.afterLoad page bin success).offset ≤ guestSize) :
    Direct page m none bin success := by
  intro sect hsect hsize
  have hfits := h.fits sect hsect
  have hpos := size_pos hsize
  have hstart : (sect.addr + m.guestAvailable).toNat
      = m.basePointer.toNat + m.offset.toNat + sect.addr.toNat := by
    have hzero := h.toNat_sectionAddr hsect hpos
    rw [sectionAddr] at hzero
    rwa [show UInt64.ofNat 0 = 0 from rfl, UInt64.add_zero] at hzero
  refine if_neg fun hvalid => ?_
  simp only [valid, Bool.and_eq_true, decide_eq_true_eq, basePointer_afterLoad,
    UInt64.le_iff_toNat_le,
    UInt64.lt_iff_toNat_lt, UInt64.toNat_add, hstart] at hvalid hbase hoff
  have hlt := m.basePointer.toNat_lt
  omega

/--
section が読み込まれるのは、どの byte の page も、前から commit 済みか今度の commit が届き、`writeMemory` が
section の番地を別の番地に直さないときに限る。`imageBase` が page に揃い、行き先がまだ commit されていないなら、
前の半分は、どの空でない section も、大きさの和を切り上げたところまでに終わり、commit が通ることである。
-/
theorem sectionsLoaded_iff (hpage : PageSize page) (h : Loadable m opcode bin) (success : Bool) :
    (SectionsLoaded page m opcode bin success ↔
        Covers page m bin success ∧ Direct page m opcode bin success) ∧
      (page.toNat ∣ (bin.imageBase + m.guestAvailable).toNat →
        (∀ sect ∈ bin.sections, ∀ i < sect.size.toNat,
          ¬ m.PageCommitted page (m.sectionAddr sect i)) →
        (SectionsLoaded page m opcode bin success ↔
          Fits page m bin success ∧ Direct page m opcode bin success)) := by
  have hiff : SectionsLoaded page m opcode bin success ↔
      Covers page m bin success ∧ Direct page m opcode bin success := by
    rw [← h.committed_iff_covers hpage]
    constructor
    · exact fun hload => ⟨hload.committed, direct_of_sectionsLoaded h hload⟩
    · exact fun hc => sectionsLoaded_of_direct h hc.1 hc.2
  refine ⟨hiff, fun haligned huntouched => ?_⟩
  rw [hiff, covers_iff_fits hpage h haligned huntouched]

/-- まだ何も commit していない memory では、どの page も commit されていない。 -/
theorem not_pageCommitted_new (page basePointer addr : UInt64) :
    ¬ (new basePointer).PageCommitted page addr := by
  rintro ⟨b, ⟨r, hr, -⟩, -⟩
  exact absurd hr List.not_mem_nil

/-- 0x10 byte ずつの section を並べた binary。 -/
def sampleImage (addrs : List UInt64) : AttachedBinary where
  imageBase := 0
  sections := addrs.map fun addr => ⟨addr, addr, 0x10, addr = 0⟩
  addrBuff := fun addr => 0x7f0000000000 + addr
  loaded := ⟨[(0, [0xc0, 0x03, 0x5f, 0xd6], true)],
    ⟨.arm64, [⟨0, 4, [⟨0, 4, .ret, false, [0xc0, 0x03, 0x5f, 0xd6]⟩]⟩]⟩⟩

theorem sampleImage_loadable {addrs : List UInt64} (hlt : ∀ addr ∈ addrs, addr.toNat < 2 ^ 32)
    (hpair : addrs.Pairwise fun a b => a.toNat + 0x10 ≤ b.toNat) :
    (new 0x10000).Loadable none (sampleImage addrs) where
  reserved := show (0x10000 : UInt64) ≠ 0 by decide
  above := fun _ _ => UInt64.le_iff_toNat_le.mpr (Nat.zero_le _)
  ascending := List.pairwise_map.mpr hpair
  fits := by
    intro sect hsect
    obtain ⟨addr, haddr, rfl⟩ := List.mem_map.mp hsect
    have := hlt addr haddr
    show 0x10000 + 0 + addr.toNat + 0x10 ≤ 2 ^ 64
    omega
  buffers := by
    intro sect hsect i hi sect' hsect' j hj heq
    obtain ⟨addr, haddr, rfl⟩ := List.mem_map.mp hsect
    obtain ⟨addr', haddr', rfl⟩ := List.mem_map.mp hsect'
    have hi : i < 0x10 := hi
    have hj : j < 0x10 := hj
    have h1 := hlt addr haddr
    have h2 := hlt addr' haddr'
    have heq : (0x7f0000000000 + addr + UInt64.ofNat i : UInt64)
        = addr' + (0x10000 + 0) + UInt64.ofNat j := heq
    have htoNat := congrArg UInt64.toNat heq
    simp only [UInt64.toNat_add, UInt64.toNat_ofNat', UInt64.reduceToNat] at htoNat
    omega
  opcodeBuffers := fun b hb => absurd hb (Option.not_mem_none b)

theorem sampleImage_covers_iff {addrs : List UInt64}
    (h : (new 0x10000).Loadable none (sampleImage addrs)) :
    Covers 0x1000 (new 0x10000) (sampleImage addrs) true ↔
      Fits 0x1000 (new 0x10000) (sampleImage addrs) true :=
  covers_iff_fits ⟨12, rfl⟩ h
    (show (0x1000 : UInt64).toNat ∣ (0 + (0x10000 + 0) : UInt64).toNat by decide)
    fun _ _ _ _ => not_pageCommitted_new _ _ _

/-- 隙間の無い二つの section は読み込まれる。 -/
theorem sampleImage_loaded :
    SectionsLoaded 0x1000 (new 0x10000) none (sampleImage [0, 0x10]) true := by
  have h : (new 0x10000).Loadable none (sampleImage [0, 0x10]) :=
    sampleImage_loadable (by simp) (by simp)
  refine (sectionsLoaded_iff ⟨12, rfl⟩ h true).1.mpr ⟨(sampleImage_covers_iff h).mpr ?_, ?_⟩
  · intro sect hsect _
    refine ⟨⟨by decide, rfl⟩, ?_⟩
    revert sect
    decide
  · unfold Direct
    decide

/-- 次の page まで隙間のある section は、commit した範囲からはみ出す。 -/
theorem sampleImage_not_loaded :
    ¬ SectionsLoaded 0x1000 (new 0x10000) none (sampleImage [0, 0x2000]) true := by
  intro hload
  have h : (new 0x10000).Loadable none (sampleImage [0, 0x2000]) :=
    sampleImage_loadable (by simp) (by simp)
  have hfits := (sampleImage_covers_iff h).mp
    ((h.committed_iff_covers ⟨12, rfl⟩).mp hload.committed)
  have hend := (hfits ⟨0x2000, 0x2000, 0x10, false⟩ (by decide) (by decide)).2
  revert hend
  decide

end GuestMemory

/-! ## `execute(target)` -/

/-- 実行する engine の状態。 -/
structure EngineState (σ γ : Type) where
  vm : Vm σ γ
  memory : GuestMemory

namespace EngineState

variable {σ γ : Type} (e : Engine σ γ) (page : UInt64) (success : Bool)
  (opcode : Option OpcodeBinary) (s : EngineState σ γ) (bin : AttachedBinary)

/-- `BinaryEngine::orchBinary`。 -/
def orchBinary (addend : UInt64) : EngineState σ γ where
  vm := s.vm.orchBinary e bin.loaded addend.toNat
  memory := (s.memory.commit (loadCall page bin addend success)).2

/-- まだ何も commit していなければ、付けた binary を読み込む。 -/
def orchOnce : EngineState σ γ :=
  if s.memory.guestAvailable = s.memory.basePointer then
    s.orchBinary e page success bin s.memory.basePointer
  else s

/-- `BinaryEngine::execute(addr_t)`。`none` は、`Orchestrator::find` の未定義の動作である。 -/
def execute (target : UInt64) : Option (Bool × EngineState σ γ) :=
  let s := s.orchOnce e page success bin
  let rtaddr := s.memory.mappedAddress opcode target 1
  if rtaddr ≠ 0 then (s.vm.startVM e rtaddr.toNat).map fun vm => (true, { s with vm := vm })
  else some (false, s)

/-- 続けて `mapMemory` を呼んだ後の memory。要求は、大きさと `page_commit` の成否の組である。 -/
def mapAll (m : GuestMemory) (calls : List (UInt64 × Bool)) : GuestMemory :=
  calls.foldl (fun m c => (m.mapMemory page c.1 c.2).2) m

/--
先に `mapMemory` を呼んでも読み込みが乱れないこと。binary は読み込まれ、`execute(target)` の答えと始まった VM は、
何も呼ばなかったときと同じである。
-/
structure Undisturbed (e : Engine σ γ) (page : UInt64) (success : Bool)
    (opcode : Option OpcodeBinary) (vm : Vm σ γ) (basePointer : UInt64) (bin : AttachedBinary)
    (calls : List (UInt64 × Bool)) (target : UInt64) : Prop where
  orchestrated : (orchOnce e page success
      ⟨vm, mapAll page (.new basePointer) calls⟩ bin).vm =
    vm.orchBinary e bin.loaded basePointer.toNat
  same : (execute e page success opcode ⟨vm, mapAll page (.new basePointer) calls⟩ bin
      target).map (fun r => (r.1, r.2.vm)) =
    (execute e page success opcode ⟨vm, .new basePointer⟩ bin target).map
      fun r => (r.1, r.2.vm)

variable {page opcode}

theorem basePointer_commit (m : GuestMemory) (c : CommitCall) :
    (m.commit c).2.basePointer = m.basePointer := by
  unfold GuestMemory.commit
  split
  · rfl
  · rfl

/-- commit の後の `m_offset` は、前の `m_offset` だけで決まる。 -/
theorem offset_commit_congr {m m' : GuestMemory} (hbase : m.basePointer = m'.basePointer)
    (hoff : m.offset = m'.offset) (c : CommitCall) :
    (m.commit c).2.offset = (m'.commit c).2.offset := by
  have hrej : m.Rejects c ↔ m'.Rejects c := by
    unfold GuestMemory.Rejects
    rw [hbase, hoff]
  by_cases h : m.Rejects c
  · rw [GuestMemory.commit_of_rejects h, GuestMemory.commit_of_rejects (hrej.mp h), hoff]
  · rw [GuestMemory.commit_of_not_rejects h, GuestMemory.commit_of_not_rejects (mt hrej.mpr h),
      hoff]

theorem basePointer_mapAll (m : GuestMemory) (calls : List (UInt64 × Bool)) :
    (mapAll page m calls).basePointer = m.basePointer := by
  induction calls generalizing m with
  | nil => rfl
  | cons c rest ih => exact (ih _).trans (basePointer_commit m _)

/-- 番地の変換が見るのは、予約の始まりと `m_offset` だけである。 -/
theorem mappedAddress_congr {m m' : GuestMemory} (hbase : m.basePointer = m'.basePointer)
    (hoff : m.offset = m'.offset) (addr size : UInt64) :
    m.mappedAddress opcode addr size = m'.mappedAddress opcode addr size := by
  unfold GuestMemory.mappedAddress GuestMemory.valid
  rw [hbase, hoff]

theorem guestAvailable_eq_iff (m : GuestMemory) :
    m.guestAvailable = m.basePointer ↔ m.offset = 0 := by
  unfold GuestMemory.guestAvailable
  constructor
  · intro h
    have hsub := congrArg (· - m.basePointer) h
    rwa [UInt64.add_comm, UInt64.add_sub_cancel, UInt64.sub_self] at hsub
  · intro h
    rw [h, UInt64.add_zero]

variable (page)

/-- まだ何も commit していなければ、読み込む。 -/
theorem orchOnce_of_zero {s : EngineState σ γ} (h : s.memory.offset = 0) :
    s.orchOnce e page success bin = s.orchBinary e page success bin s.memory.basePointer :=
  if_pos ((guestAvailable_eq_iff _).mpr h)

theorem orchOnce_of_ne {s : EngineState σ γ} (h : s.memory.offset ≠ 0) :
    s.orchOnce e page success bin = s :=
  if_neg (mt (guestAvailable_eq_iff _).mp h)

/-- 読み込むと slot の列が一つ増える。 -/
theorem orchBinary_ne (vm : Vm σ γ) (bin : LoadedBinary) (addend : Nat) :
    vm ≠ vm.orchBinary e bin addend := by
  intro h
  have hlen := congrArg (fun v : Vm σ γ => v.blocks.length) h
  have hblocks := Vm.blocks_foldl_liftUnit (e := e) (Vm.binaryUnits e bin addend) vm
  simp [Vm.orchBinary, hblocks] at hlen

/-- 読み込みが乱れないのは、`execute` の前に `m_offset` がまだ 0 であるときに限る。 -/
theorem undisturbed_iff (e : Engine σ γ) (page : UInt64) (success : Bool)
    (opcode : Option OpcodeBinary) (vm : Vm σ γ) (basePointer : UInt64) (bin : AttachedBinary)
    (calls : List (UInt64 × Bool)) (target : UInt64) :
    Undisturbed e page success opcode vm basePointer bin calls target ↔
      (mapAll page (.new basePointer) calls).offset = 0 := by
  have hbase : (mapAll page (.new basePointer) calls).basePointer = basePointer :=
    basePointer_mapAll _ _
  constructor
  · intro h
    by_contra hne
    have horch := h.orchestrated
    rw [orchOnce_of_ne e page success bin hne] at horch
    exact orchBinary_ne e vm bin.loaded basePointer.toNat horch
  · intro h
    -- どちらの run も読み込み、VM と、番地の変換の見るものが同じになる
    have hmapped := orchOnce_of_zero e page success bin
      (s := ⟨vm, mapAll page (.new basePointer) calls⟩) h
    have hnew := orchOnce_of_zero e page success bin (s := ⟨vm, .new basePointer⟩) rfl
    have haddr : ∀ addr size, (mapAll page (.new basePointer) calls |>.commit
        (loadCall page bin basePointer success)).2.mappedAddress opcode addr size =
        ((GuestMemory.new basePointer).commit
          (loadCall page bin basePointer success)).2.mappedAddress opcode addr size := by
      intro addr size
      refine mappedAddress_congr ?_ (offset_commit_congr hbase h _) addr size
      rw [basePointer_commit, basePointer_commit, hbase]
      rfl
    refine ⟨?_, ?_⟩
    · rw [hmapped]
      show vm.orchBinary e bin.loaded (mapAll page (.new basePointer) calls).basePointer.toNat = _
      rw [hbase]
    · unfold execute
      rw [hmapped, hnew]
      unfold orchBinary
      dsimp only
      rw [hbase, haddr]
      show _ = Option.map _ (if ((GuestMemory.new basePointer).commit
        (loadCall page bin basePointer success)).2.mappedAddress opcode target 1 ≠ 0 then _ else _)
      split
      · rw [Option.map_map, Option.map_map]
        rfl
      · rfl

/-! ### 例 -/

/-- 一つの関数の binary を、`calls` の後で実行する。 -/
def sampleExecute (calls : List (UInt64 × Bool)) : Option (Bool × EngineState Unit Nat) :=
  execute (Vm.sampleEngine Vm.noEvents) 0x1000 true none
    ⟨Vm.init () [] 0, mapAll 0x1000 (.new 0x10000) calls⟩ (GuestMemory.sampleImage [0]) 0

/-- 先に 1 byte でも取ると、binary は読み込まれず、実行は打ち切られる。 -/
theorem sampleExecute_disturbed :
    (sampleExecute []).map (fun r => r.2.vm.control) = some (.slot ⟨0, 0⟩) ∧
      (sampleExecute [(1, true)]).map (fun r => r.2.vm.control) = some .aborted ∧
      ¬ Undisturbed (Vm.sampleEngine Vm.noEvents) 0x1000 true none (Vm.init () [] 0) 0x10000
        (GuestMemory.sampleImage [0]) [(1, true)] 0 := by
  refine ⟨rfl, rfl, fun h => ?_⟩
  have horch := h.orchestrated
  rw [orchOnce_of_ne _ _ _ _ (by decide)] at horch
  exact orchBinary_ne _ _ _ _ horch

end EngineState

end AetherVM
