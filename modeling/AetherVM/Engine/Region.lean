import AetherVM.Engine.Memory
import AetherVM.Engine.Register
import AetherVM.Infra.Bump
import AetherVM.Infra.Width

/-!
# guest の memory の範囲（`src/Memory.h` の `valid`、`BinaryEngine` の `mapMemory` から `writeMemory`）

`mapMemory` は次に空いている address から、page に切り上げた大きさを commit して渡す。`valid` は、範囲が
commit 済みの所に収まるかを見る。`mappedAddress` は binary の番地を host の番地に直し、`readMemory` と
`writeMemory` はその番地を直に読み書きする。直せないときは OS に頼む。

大きさの切り上げも、空きの確かめも、範囲の終わりも、64 bit で折り返す和である。
-/

namespace AetherVM

open Infra

/-- `align_up`。 -/
def alignUp (value alignSize : UInt64) : UInt64 := (value + alignSize - 1) &&& ~~~(alignSize - 1)

/-- page の大きさは 2 の冪である。 -/
def PageSize (page : UInt64) : Prop := ∃ k, page.toNat = 2 ^ k

section AlignUp

variable {page n : UInt64}

theorem PageSize.pos (h : PageSize page) : 0 < page.toNat := by
  obtain ⟨k, hk⟩ := h
  rw [hk]
  exact Nat.two_pow_pos k

/-- 切り上げの前の和は折り返す。 -/
theorem toNat_alignUp (h : PageSize page) (n : UInt64) : (alignUp n page).toNat =
    (n.toNat + page.toNat - 1) % 2 ^ 64 / page.toNat * page.toNat := by
  have hpos := h.pos
  obtain ⟨k, hk⟩ := h
  have hsum : (n + page - 1).toNat = (n.toNat + page.toNat - 1) % 2 ^ 64 := by
    have hn := n.toNat_lt
    have hp := page.toNat_lt
    rw [UInt64.toNat_sub, UInt64.toNat_add]
    simp only [UInt64.reduceToNat]
    omega
  rw [alignUp, toNat_and_not_mask hk, hsum, hk]

theorem toNat_alignUp_of_lt (h : PageSize page) (hlt : n.toNat + page.toNat - 1 < 2 ^ 64) :
    (alignUp n page).toNat = roundUp page.toNat n.toNat := by
  rw [toNat_alignUp h, Nat.mod_eq_of_lt hlt, roundUp]

/-- 0 と、和が折り返す大きさは、0 に切り上がる。 -/
theorem alignUp_eq_zero (h : PageSize page)
    (hn : n = 0 ∨ 2 ^ 64 ≤ n.toNat + page.toNat - 1) : alignUp n page = 0 := by
  have hpos := h.pos
  have hlt := n.toNat_lt
  have hp := page.toNat_lt
  have hsmall : (n.toNat + page.toNat - 1) % 2 ^ 64 < page.toNat := by
    rcases hn with rfl | hn
    · simp only [UInt64.reduceToNat]
      omega
    · omega
  apply UInt64.toNat_inj.mp
  rw [toNat_alignUp h, Nat.div_eq_of_lt hsmall, Nat.zero_mul]
  rfl

end AlignUp

namespace GuestMemory

variable (m : GuestMemory)

/-! ## 読み書きの前の確かめ -/

/-- `GuestMemory::valid`。 -/
def valid (vmaddr size : UInt64) : Bool :=
  decide (m.basePointer ≤ vmaddr) && decide (vmaddr < m.basePointer + m.offset) &&
    decide (vmaddr + size < m.basePointer + m.offset)

/-- 範囲が、折り返さずに、先頭から `m_offset` までに収まること。 -/
def Inside (vmaddr size : UInt64) : Prop :=
  m.basePointer.toNat ≤ vmaddr.toNat ∧
    vmaddr.toNat + size.toNat ≤ m.basePointer.toNat + m.offset.toNat

instance (vmaddr size : UInt64) : Decidable (m.Inside vmaddr size) :=
  inferInstanceAs (Decidable (_ ∧ _))

/-- 一つの byte が先頭から `m_offset` までにあること。 -/
def Owns (addr : UInt64) : Prop :=
  m.basePointer.toNat ≤ addr.toNat ∧ addr.toNat < m.basePointer.toNat + m.offset.toNat

end GuestMemory

/-- `m_binary_opcode` のうち、番地の変換が読むもの。 -/
structure OpcodeBinary where
  imageBase : UInt64
  sections : List BinarySection
  addrBuff : UInt64 → UInt64

/-- 番地が、`imageBase` から最後の section の終わりまでにあること。 -/
def OpcodeBinary.holds (bin : OpcodeBinary) (addr : UInt64) : Bool :=
  match bin.sections.getLast? with
  | some lastsect =>
    decide (bin.imageBase ≤ addr) && decide (addr < lastsect.addr + lastsect.size)
  | none => false

/-- host の memory。`memoryRead` と `memoryWrite` は OS の読み書きで、今の中身を受け取る。 -/
structure HostMemory where
  byte : UInt64 → UInt8
  memoryRead : (UInt64 → UInt8) → UInt64 → UInt64 → Option Bytes
  memoryWrite : (UInt64 → UInt8) → UInt64 → Bytes → Bool × (UInt64 → UInt8)

namespace GuestMemory

variable (m : GuestMemory) (opcode : Option OpcodeBinary) (host : HostMemory)

/-- `BinaryEngine::mappedAddress`。 -/
def mappedAddress (addr size : UInt64) : UInt64 :=
  match opcode.filter (·.holds addr) with
  | some bin => bin.addrBuff addr
  | none =>
    let rtaddr := m.basePointer + addr
    if m.valid rtaddr size then rtaddr else 0

/-- `BinaryEngine::readMemory`。 -/
def readMemory (addr size : UInt64) : Bytes :=
  let rtaddr := m.mappedAddress opcode addr size
  if rtaddr ≠ 0 then (List.range size.toNat).map fun i => host.byte (rtaddr + UInt64.ofNat i)
  else (host.memoryRead host.byte addr size).getD []

/-- `BinaryEngine::writeMemory`。返り値と、書いた後の host の memory である。 -/
def writeMemory (addr : UInt64) (buff : Bytes) : Bool × (UInt64 → UInt8) :=
  let rtaddr := m.mappedAddress opcode addr (UInt64.ofNat buff.length)
  if rtaddr ≠ 0 then
    (true, fun x => buff[(x - rtaddr).toNat]?.getD (host.byte x))
  else host.memoryWrite host.byte addr buff

/-! ## `valid` はいつ正しいか -/

variable {m} {vmaddr size : UInt64}

theorem valid_iff (hend : m.basePointer.toNat + m.offset.toNat < 2 ^ 64) :
    m.valid vmaddr size = true ↔ m.basePointer.toNat ≤ vmaddr.toNat ∧
      vmaddr.toNat < m.basePointer.toNat + m.offset.toNat ∧
      (vmaddr.toNat + size.toNat) % 2 ^ 64 < m.basePointer.toNat + m.offset.toNat := by
  simp only [valid, Bool.and_eq_true, decide_eq_true_eq, UInt64.le_iff_toNat_le,
    UInt64.lt_iff_toNat_lt, UInt64.toNat_add, Nat.mod_eq_of_lt hend, and_assoc]

/-- 終わりがちょうど `m_offset` か、和が折り返すと、`valid` は誤る。 -/
def Misjudged (m : GuestMemory) (vmaddr size : UInt64) : Prop :=
  m.Owns vmaddr ∧
    (vmaddr.toNat + size.toNat = m.basePointer.toNat + m.offset.toNat ∨
      2 ^ 64 ≤ vmaddr.toNat + size.toNat)

theorem valid_iff_inside_iff (hend : m.basePointer.toNat + m.offset.toNat < 2 ^ 64)
    (hsize : 1 ≤ size) : (m.valid vmaddr size = true ↔ m.Inside vmaddr size) ↔
      ¬ m.Misjudged vmaddr size := by
  have hv := vmaddr.toNat_lt
  have hs := size.toNat_lt
  have hsize : 1 ≤ size.toNat := UInt64.le_iff_toNat_le.mp hsize
  rw [valid_iff hend]
  unfold Inside Misjudged Owns
  by_cases hwrap : vmaddr.toNat + size.toNat < 2 ^ 64
  · rw [Nat.mod_eq_of_lt hwrap]
    constructor
    · rintro h ⟨⟨hlo, hhi⟩, hc⟩
      have hall := h.mpr ⟨hlo, by omega⟩
      omega
    · intro h
      constructor
      · rintro ⟨hlo, -, hlt⟩
        exact ⟨hlo, by omega⟩
      · rintro ⟨hlo, hle⟩
        refine ⟨hlo, by omega, ?_⟩
        by_contra hge
        exact h ⟨⟨hlo, by omega⟩, .inl (by omega)⟩
  · constructor
    · rintro h ⟨⟨hlo, hhi⟩, -⟩
      have hall := (h.mp ⟨hlo, hhi, by omega⟩).2
      omega
    · intro h
      constructor
      · rintro ⟨hlo, hhi, -⟩
        exact absurd ⟨⟨hlo, hhi⟩, .inr (by omega)⟩ h
      · rintro ⟨-, hle⟩
        omega

/-! ## 読み書きの範囲 -/

/-- opcode の binary がこの番地を持たないこと。 -/
def Unheld (opcode : Option OpcodeBinary) (addr : UInt64) : Prop :=
  ∀ bin ∈ opcode, bin.holds addr = false

/--
`valid` が範囲の包含であり、したがって `readMemory` と `writeMemory` が、収まる範囲を受け入れ、直に読み書きする
ときは範囲の外の byte に触れないこと。
-/
structure RangeExact (m : GuestMemory) (vmaddr size : UInt64) : Prop where
  valid_iff : m.valid vmaddr size = true ↔ m.Inside vmaddr size
  read : ∀ opcode host, Unheld opcode (vmaddr - m.basePointer) → m.Inside vmaddr size →
    vmaddr ≠ 0 → m.readMemory opcode host (vmaddr - m.basePointer) size =
      (List.range size.toNat).map fun i => host.byte (vmaddr + UInt64.ofNat i)
  write : ∀ opcode host (buff : Bytes), Unheld opcode (vmaddr - m.basePointer) →
    buff.length = size.toNat → m.Inside vmaddr size → vmaddr ≠ 0 →
    (m.writeMemory opcode host (vmaddr - m.basePointer) buff).1 = true ∧
      ∀ i < buff.length, (m.writeMemory opcode host (vmaddr - m.basePointer) buff).2
        (vmaddr + UInt64.ofNat i) = buff.getD i 0
  readsInside : ∀ opcode (host host' : HostMemory), Unheld opcode (vmaddr - m.basePointer) →
    m.mappedAddress opcode (vmaddr - m.basePointer) size ≠ 0 →
    (∀ x, m.Owns x → host.byte x = host'.byte x) →
    m.readMemory opcode host (vmaddr - m.basePointer) size =
      m.readMemory opcode host' (vmaddr - m.basePointer) size
  writesInside : ∀ opcode (host : HostMemory) (buff : Bytes),
    Unheld opcode (vmaddr - m.basePointer) → buff.length = size.toNat →
    m.mappedAddress opcode (vmaddr - m.basePointer) size ≠ 0 → ∀ x, ¬ m.Owns x →
      (m.writeMemory opcode host (vmaddr - m.basePointer) buff).2 x = host.byte x

section Access

variable {opcode : Option OpcodeBinary} {host host' : HostMemory} {buff : Bytes}

/-- opcode の binary が持たない番地は、`valid` なら guest の memory の番地になる。 -/
theorem mappedAddress_of_unheld (h : Unheld opcode (vmaddr - m.basePointer)) :
    m.mappedAddress opcode (vmaddr - m.basePointer) size =
      if m.valid vmaddr size then vmaddr else 0 := by
  have hnone : opcode.filter (·.holds (vmaddr - m.basePointer)) = none := by
    rw [Option.filter_eq_none_iff]
    intro bin hbin
    rw [h bin hbin]
    exact Bool.false_ne_true
  have hrt : m.basePointer + (vmaddr - m.basePointer) = vmaddr := by
    rw [UInt64.add_comm, UInt64.sub_add_cancel]
  unfold mappedAddress
  rw [hnone, hrt]

theorem mappedAddress_of_valid (h : Unheld opcode (vmaddr - m.basePointer))
    (hvalid : m.valid vmaddr size = true) :
    m.mappedAddress opcode (vmaddr - m.basePointer) size = vmaddr := by
  rw [mappedAddress_of_unheld h, if_pos hvalid]

theorem valid_of_mappedAddress (h : Unheld opcode (vmaddr - m.basePointer))
    (hmapped : m.mappedAddress opcode (vmaddr - m.basePointer) size ≠ 0) :
    m.valid vmaddr size = true := by
  rw [mappedAddress_of_unheld h] at hmapped
  by_contra hc
  rw [if_neg hc] at hmapped
  exact hmapped rfl

theorem ofNat_length (hlen : buff.length = size.toNat) : UInt64.ofNat buff.length = size := by
  rw [hlen, UInt64.ofNat_toNat]

/-- 範囲の中の `i` 番目の byte。 -/
theorem Inside.owns (h : m.Inside vmaddr size)
    (hend : m.basePointer.toNat + m.offset.toNat < 2 ^ 64) {i : Nat} (hi : i < size.toNat) :
    (vmaddr + UInt64.ofNat i).toNat = vmaddr.toNat + i ∧ m.Owns (vmaddr + UInt64.ofNat i) := by
  obtain ⟨hlo, hhi⟩ := h
  have hadd : (vmaddr + UInt64.ofNat i).toNat = vmaddr.toNat + i := by
    rw [UInt64.toNat_add, UInt64.toNat_ofNat', Nat.mod_eq_of_lt (a := i) (by omega),
      Nat.mod_eq_of_lt (by omega)]
  exact ⟨hadd, by rw [hadd]; omega, by rw [hadd]; omega⟩

/-- `valid` が正しければ、読み書きの範囲も正しい。 -/
theorem rangeExact_of_valid_iff (hend : m.basePointer.toNat + m.offset.toNat < 2 ^ 64)
    (hiff : m.valid vmaddr size = true ↔ m.Inside vmaddr size) : m.RangeExact vmaddr size where
  valid_iff := hiff
  read := by
    intro opcode host hun hin hne
    unfold readMemory
    rw [mappedAddress_of_valid hun (hiff.mpr hin), if_pos hne]
  write := by
    intro opcode host buff hun hlen hin hne
    unfold writeMemory
    rw [ofNat_length hlen, mappedAddress_of_valid hun (hiff.mpr hin), if_pos hne]
    refine ⟨rfl, fun i hi => ?_⟩
    have hadd := (hin.owns hend (hlen ▸ hi)).1
    have hoff : (vmaddr + UInt64.ofNat i - vmaddr).toNat = i := by
      rw [UInt64.toNat_sub_of_le _ _ (by rw [UInt64.le_iff_toNat_le]; omega), hadd,
        Nat.add_sub_cancel_left]
    show buff[(vmaddr + UInt64.ofNat i - vmaddr).toNat]?.getD _ = buff.getD i 0
    rw [hoff, List.getD_eq_getElem?_getD, List.getElem?_eq_getElem hi]
    rfl
  readsInside := by
    intro opcode host host' hun hmapped hagree
    have hin := hiff.mp (valid_of_mappedAddress hun hmapped)
    unfold readMemory
    rw [if_pos hmapped, if_pos hmapped, mappedAddress_of_valid hun (hiff.mpr hin)]
    refine List.map_congr_left fun i hi => ?_
    exact hagree _ (hin.owns hend (List.mem_range.mp hi)).2
  writesInside := by
    intro opcode host buff hun hlen hmapped x hx
    have hvalid := valid_of_mappedAddress hun hmapped
    have hin := hiff.mp hvalid
    unfold writeMemory
    rw [ofNat_length hlen, if_pos hmapped, mappedAddress_of_valid hun hvalid]
    show buff[(x - vmaddr).toNat]?.getD (host.byte x) = host.byte x
    rw [List.getElem?_eq_none]
    · rfl
    · by_contra hlt
      refine hx ?_
      have howns := (hin.owns hend (i := (x - vmaddr).toNat) (by omega)).2
      rwa [UInt64.ofNat_toNat, UInt64.add_comm, UInt64.sub_add_cancel] at howns

end Access

/-- 範囲の扱いが正しいのは、終わりがちょうど `m_offset` でも、和が折り返すのでもないときに限る。 -/
theorem rangeExact_iff (hend : m.basePointer.toNat + m.offset.toNat < 2 ^ 64)
    (hsize : 1 ≤ size) : m.RangeExact vmaddr size ↔ ¬ m.Misjudged vmaddr size := by
  rw [← valid_iff_inside_iff hend hsize]
  exact ⟨fun h => h.valid_iff, rangeExact_of_valid_iff hend⟩

/-- 一 page を commit した memory。 -/
def samplePage : GuestMemory := ⟨0x10000, 0x1000, [(0x10000, 0x1000)]⟩

theorem samplePage_rangeExact : samplePage.RangeExact 0x10000 0xfff :=
  (rangeExact_iff (by decide) (by decide)).mpr (by unfold Misjudged Owns; decide)

/-- page 全体は収まるのに `valid` でなく、`2^64 - 1` byte の範囲は収まらないのに `valid` である。 -/
theorem samplePage_not_rangeExact : ¬ samplePage.RangeExact 0x10000 0x1000 ∧
    ¬ samplePage.RangeExact 0x10001 0xffffffffffffffff := by
  constructor
  · intro h
    have hvalid := h.valid_iff.mpr (by decide)
    revert hvalid
    decide
  · intro h
    have hin := h.valid_iff.mp (by decide)
    revert hin
    decide

/-! ## `mapMemory` -/

/-- `BinaryEngine::mapMemory`。`success` は `page_commit` の成否である。 -/
def mapMemory (m : GuestMemory) (page size : UInt64) (success : Bool) : UInt64 × GuestMemory :=
  let vmaddr := m.guestAvailable
  let (ok, m) := m.commit ⟨vmaddr, alignUp size page, true, true, success⟩
  (if ok then vmaddr else 0, m)

/-- 予約できた範囲。`page_alloc` は失敗すると 0 を返し、成功すると address の上限までに収まる範囲を返す。 -/
structure Reserved (basePointer : UInt64) : Prop where
  ne_zero : basePointer ≠ 0
  le : basePointer.toNat + guestSize.toNat ≤ 2 ^ 64

/-- memory と、それまでに渡した区間。 -/
structure MapHistory where
  memory : GuestMemory
  regions : List Region

namespace MapHistory

/-- 渡した区間。要求が page より小さくても、page 一つである。 -/
def region (page size a : UInt64) : Region := ⟨a.toNat, max size.toNat page.toNat⟩

/-- `mapMemory` を一度呼ぶ。0 でない結果の区間を覚えておく。 -/
def map (page : UInt64) (h : MapHistory) (size : UInt64) : UInt64 × MapHistory :=
  let (a, m) := h.memory.mapMemory page size true
  (a, ⟨m, if a = 0 then h.regions else region page size a :: h.regions⟩)

/-- 予約の中の、まだ渡していない区間であること。 -/
def FreshRegion (h : MapHistory) (r : Region) : Prop :=
  Fresh h.memory.basePointer.toNat (h.memory.basePointer.toNat + guestSize.toNat) h.regions r

/-- 最後に渡した区間の終わりの、予約の始まりからの距離。 -/
def used (h : MapHistory) : Nat :=
  match h.regions with
  | [] => 0
  | r :: _ => r.start + r.size - h.memory.basePointer.toNat

/-- 0 でない結果は新しい区間を指し、0 を返すのは、そのような区間が置けないときに限ること。 -/
structure HandsOut (page : UInt64) (h : MapHistory) (size : UInt64) : Prop where
  fresh : (h.map page size).1 ≠ 0 → h.FreshRegion (region page size (h.map page size).1)
  zero_iff : (h.map page size).1 = 0 ↔
    ¬ ∃ start, h.FreshRegion ⟨start, max size.toNat page.toNat⟩

/--
要求の条件。0 でなく、切り上げの和も、`m_offset` との和も折り返さず、切り上げた大きさが予約の終わりより前に
収まるか、最後に渡した区間の後ろに要求の区間がそもそも置けない。
-/
structure Ok (page : UInt64) (h : MapHistory) (size : UInt64) : Prop where
  pos : 0 < size.toNat
  roundsUp : size.toNat + page.toNat - 1 < 2 ^ 64
  noWrap : h.memory.offset.toNat + (alignUp size page).toNat < 2 ^ 64
  notExact : h.memory.offset.toNat + (alignUp size page).toNat < guestSize.toNat ∨
    guestSize.toNat < h.used + max size.toNat page.toNat

/-- 渡した区間が、先頭から `m_offset` までに詰まっている。 -/
structure Dense (page basePointer : UInt64) (h : MapHistory) : Prop where
  basePointer_eq : h.memory.basePointer = basePointer
  offset_lt : h.memory.offset.toNat < guestSize.toNat
  packed : Packed page.toNat basePointer.toNat (basePointer.toNat + h.used)
    (basePointer.toNat + h.memory.offset.toNat) h.regions

variable {page basePointer size : UInt64} {h : MapHistory}

/-- 次に空いている address を渡すときは、二つの空きの確かめは同じものである。 -/
theorem rejects_available_iff (m : GuestMemory) (s : UInt64) (r w ok : Bool) :
    m.Rejects ⟨m.guestAvailable, s, r, w, ok⟩ ↔
      guestSize.toNat ≤ (m.offset.toNat + s.toNat) % 2 ^ 64 := by
  have hsub : m.guestAvailable - m.basePointer = m.offset := by
    rw [guestAvailable, UInt64.add_comm, UInt64.add_sub_cancel]
  unfold Rejects
  rw [hsub, or_self, UInt64.le_iff_toNat_le, UInt64.toNat_add]

/-- 断られた要求は 0 を返し、何も変えない。 -/
theorem map_of_rejects (page size : UInt64) (h : MapHistory)
    (hrej : guestSize.toNat ≤
      (h.memory.offset.toNat + (alignUp size page).toNat) % 2 ^ 64) :
    h.map page size = (0, h) := by
  have hcommit := commit_of_rejects ((rejects_available_iff h.memory (alignUp size page) true true
    true).mpr hrej)
  unfold map mapMemory
  dsimp only
  rw [hcommit]
  rfl

/-- 通った要求は、次に空いている address を渡す。 -/
theorem map_of_fits (hne : h.memory.guestAvailable ≠ 0)
    (hfit : (h.memory.offset.toNat + (alignUp size page).toNat) % 2 ^ 64 < guestSize.toNat) :
    (h.map page size).1 = h.memory.guestAvailable ∧
      (h.map page size).2.memory.basePointer = h.memory.basePointer ∧
      (h.map page size).2.memory.offset = h.memory.offset + alignUp size page ∧
      (h.map page size).2.regions = region page size h.memory.guestAvailable :: h.regions := by
  have hnot := mt (rejects_available_iff h.memory (alignUp size page) true true true).mp
    (Nat.not_le.mpr hfit)
  unfold map mapMemory
  dsimp only
  rw [commit_of_not_rejects hnot]
  refine ⟨rfl, rfl, rfl, ?_⟩
  show (if h.memory.guestAvailable = 0 then _ else _) = _
  rw [if_neg hne]
  rfl

namespace Dense

variable (hd : Dense page basePointer h) (hbase : Reserved basePointer)

include hd

/-- 新しい区間が置けるのは、最後に渡した区間の後ろに置けるときに限る。 -/
theorem exists_fresh_iff : (∃ start, h.FreshRegion ⟨start, max size.toNat page.toNat⟩) ↔
    h.used + max size.toNat page.toNat ≤ guestSize.toNat := by
  unfold FreshRegion
  rw [hd.basePointer_eq, hd.packed.exists_fresh_iff (Nat.le_max_right _ _), Nat.add_assoc,
    Nat.add_le_add_iff_left]

include hbase

theorem toNat_guestAvailable :
    h.memory.guestAvailable.toNat = basePointer.toNat + h.memory.offset.toNat := by
  have hlt := hd.offset_lt
  have hle := hbase.le
  rw [guestAvailable, UInt64.toNat_add, hd.basePointer_eq]
  exact Nat.mod_eq_of_lt (by omega)

theorem guestAvailable_ne_zero : h.memory.guestAvailable ≠ 0 := by
  intro h0
  have htoNat := hd.toNat_guestAvailable hbase
  rw [h0] at htoNat
  refine hbase.ne_zero (UInt64.toNat_inj.mp ?_)
  simp only [UInt64.reduceToNat] at htoNat ⊢
  omega

theorem freshRegion_iff : h.FreshRegion (region page size h.memory.guestAvailable) ↔
    h.memory.offset.toNat + max size.toNat page.toNat ≤ guestSize.toNat := by
  have hstart := hd.toNat_guestAvailable hbase
  unfold FreshRegion region
  rw [hd.basePointer_eq, hstart]
  constructor
  · intro hf
    have hin : basePointer.toNat + h.memory.offset.toNat + max size.toNat page.toNat ≤ _ :=
      hf.inside
    omega
  · exact fun hle => hd.packed.fresh hd.packed.used_le (by omega)

end Dense

/-! ### 一度の呼び出し -/

section Step

variable (hpage : PageSize page) (hbase : Reserved basePointer) (hd : Dense page basePointer h)

include hpage hbase hd

/-- 条件を満たす要求は、守るべきことを守る。 -/
theorem handsOut_of_ok (hok : h.Ok page size) : h.HandsOut page size := by
  have hround : (alignUp size page).toNat = roundUp page.toNat size.toNat :=
    toNat_alignUp_of_lt hpage hok.roundsUp
  have hle := le_roundUp hpage.pos size.toNat
  have hone := page_le_roundUp hpage.pos hok.pos
  have hmod := Nat.mod_eq_of_lt hok.noWrap
  have hused := hd.packed.used_le
  rcases hok.notExact with hfit | hover
  · -- 収まるので、次に空いている address を渡す
    have hres := (map_of_fits (hd.guestAvailable_ne_zero hbase) (by rw [hmod]; exact hfit)).1
    have hroom : h.memory.offset.toNat + max size.toNat page.toNat ≤ guestSize.toNat := by omega
    refine ⟨fun _ => ?_, iff_of_false ?_ ?_⟩
    · rw [hres]
      exact (hd.freshRegion_iff hbase).mpr hroom
    · rw [hres]
      exact hd.guestAvailable_ne_zero hbase
    · exact not_not_intro (hd.exists_fresh_iff.mpr (by omega))
  · -- 置けないので断る
    have hres := map_of_rejects page size h (by rw [hmod]; omega)
    refine ⟨fun hne => absurd (by rw [hres]) hne, iff_of_true (by rw [hres]) fun hex => ?_⟩
    have hroom := hd.exists_fresh_iff.mp hex
    omega

/-- 条件を満たす要求の後も、渡した区間は詰まっている。 -/
theorem dense_map (hok : h.Ok page size) : Dense page basePointer (h.map page size).2 := by
  have hround : (alignUp size page).toNat = roundUp page.toNat size.toNat :=
    toNat_alignUp_of_lt hpage hok.roundsUp
  have hmod := Nat.mod_eq_of_lt hok.noWrap
  by_cases hfit : h.memory.offset.toNat + (alignUp size page).toNat < guestSize.toNat
  · obtain ⟨-, hbp, hoff, hregions⟩ :=
      map_of_fits (hd.guestAvailable_ne_zero hbase) (by rw [hmod]; exact hfit)
    have hoff : (h.map page size).2.memory.offset.toNat =
        h.memory.offset.toNat + roundUp page.toNat size.toNat := by
      rw [hoff, UInt64.toNat_add, hmod, hround]
    have hused : (h.map page size).2.used
        = h.memory.offset.toNat + max size.toNat page.toNat := by
      unfold used
      rw [hregions, hbp, hd.basePointer_eq]
      show h.memory.guestAvailable.toNat + max size.toNat page.toNat - _ = _
      rw [hd.toNat_guestAvailable hbase]
      omega
    refine ⟨hbp.trans hd.basePointer_eq, by omega, ?_⟩
    rw [hoff, hused, hregions, region, hd.toNat_guestAvailable hbase, ← Nat.add_assoc,
      ← Nat.add_assoc]
    exact hd.packed.take hpage.pos hok.pos
  · rw [map_of_rejects page size h (by rw [hmod]; exact Nat.le_of_not_lt hfit)]
    exact hd

/-- 条件を満たさない要求は、そこで誤るか、同じ要求をもう一度すると誤る。 -/
theorem ok_of_handsOut_twice (h1 : h.HandsOut page size)
    (h2 : (h.map page size).2.HandsOut page size) : h.Ok page size := by
  have hlt := size.toNat_lt
  have hoff := hd.offset_lt
  have hguest : guestSize.toNat = 3221225472 := rfl
  -- 渡した結果は新しい区間を指すので、予約に収まる
  have hroom : (h.memory.offset.toNat + (alignUp size page).toNat) % 2 ^ 64 < guestSize.toNat →
      h.memory.offset.toNat + max size.toNat page.toNat ≤ guestSize.toNat := by
    intro hfit
    have hres := (map_of_fits (hd.guestAvailable_ne_zero hbase) hfit).1
    have hfresh := h1.fresh (by rw [hres]; exact hd.guestAvailable_ne_zero hbase)
    rw [hres] at hfresh
    exact (hd.freshRegion_iff hbase).mp hfresh
  -- 切り上げて 0 になる要求は、同じ address をもう一度渡す
  have hnonzero : alignUp size page ≠ 0 := by
    intro h0
    have hfit : (h.memory.offset.toNat + (alignUp size page).toNat) % 2 ^ 64 <
        guestSize.toNat := by
      rw [h0]
      simp only [UInt64.reduceToNat]
      omega
    obtain ⟨-, hbp, hoff', hregions⟩ := map_of_fits (hd.guestAvailable_ne_zero hbase) hfit
    rw [h0, UInt64.add_zero] at hoff'
    have hsame : (h.map page size).2.memory.guestAvailable = h.memory.guestAvailable := by
      rw [guestAvailable, hbp, hoff', guestAvailable]
    have hne : (h.map page size).2.memory.guestAvailable ≠ 0 := by
      rw [hsame]
      exact hd.guestAvailable_ne_zero hbase
    have hres : ((h.map page size).2.map page size).1 = (h.map page size).2.memory.guestAvailable :=
      (map_of_fits hne (by rw [hoff']; exact hfit)).1
    have hfresh := h2.fresh (by rw [hres]; exact hne)
    rw [hres, hsame] at hfresh
    have hapart := hfresh.disjoint _ (by rw [hregions]; exact List.mem_cons_self)
    have hpos := hpage.pos
    unfold Region.Disjoint region at hapart
    dsimp only at hapart
    omega
  have hpos : 0 < size.toNat := by
    by_contra hc
    exact hnonzero (alignUp_eq_zero hpage (.inl (UInt64.toNat_inj.mp (Nat.eq_zero_of_not_pos hc))))
  have hrounds : size.toNat + page.toNat - 1 < 2 ^ 64 := by
    by_contra hc
    exact hnonzero (alignUp_eq_zero hpage (.inr (Nat.le_of_not_lt hc)))
  have hround : (alignUp size page).toNat = roundUp page.toNat size.toNat :=
    toNat_alignUp_of_lt hpage hrounds
  have hless := roundUp_lt hpage.pos size.toNat
  have hnoWrap : h.memory.offset.toNat + (alignUp size page).toNat < 2 ^ 64 := by
    by_contra hc
    have hs := (alignUp size page).toNat_lt
    have hfits := hroom (by omega)
    omega
  refine ⟨hpos, hrounds, hnoWrap, ?_⟩
  by_contra hc
  have hres := map_of_rejects page size h
    (by rw [Nat.mod_eq_of_lt hnoWrap]; omega)
  exact h1.zero_iff.mp (by rw [hres]) (hd.exists_fresh_iff.mpr (by omega))

end Step

/-! ### run -/

theorem dense_new (hpage : PageSize page) (basePointer : UInt64) :
    Dense page basePointer ⟨new basePointer, []⟩ where
  basePointer_eq := rfl
  offset_lt := show (0 : UInt64).toNat < guestSize.toNat by decide
  packed := .nil hpage.pos _

/--
条件を満たす要求だけの run では、渡した区間は互いに重ならず、予約に収まり、条件を満たす次の要求も守るべきことを
守る。条件を満たさない要求は、そこか、同じ要求をもう一度したところで誤る。
-/
theorem run_handsOut (hpage : PageSize page) (hbase : Reserved basePointer)
    (hrun : Run (fun h size h' => (map page h size).2 = h') (Ok page)
      ⟨new basePointer, []⟩ h) :
    h.regions.Pairwise Region.Disjoint ∧
      (∀ r ∈ h.regions, basePointer.toNat ≤ r.start ∧
        r.start + r.size ≤ basePointer.toNat + guestSize.toNat) ∧
      (∀ size, h.Ok page size → h.HandsOut page size) ∧
      ∀ size, h.HandsOut page size → (h.map page size).2.HandsOut page size →
        h.Ok page size := by
  have hd : Dense page basePointer h := by
    refine hrun.invariant (dense_new hpage basePointer) fun h size h' hd hok hs => ?_
    rw [← hs]
    exact dense_map hpage hbase hd hok
  have hoff := hd.offset_lt
  refine ⟨hd.packed.pairwise, fun r hr => ?_, fun size hok => handsOut_of_ok hpage hbase hd hok,
    fun size h1 h2 => ok_of_handsOut_twice hpage hbase hd h1 h2⟩
  obtain ⟨hlo, hhi⟩ := hd.packed.bounds r hr
  have hused := hd.packed.used_le
  exact ⟨hlo, by omega⟩

theorem page4096 : PageSize 0x1000 := ⟨12, rfl⟩

theorem reserved_sample : Reserved 0x10000 := ⟨by decide, by decide⟩

/-- 1 byte を取った後で、5000 byte を取る。 -/
theorem sampleMap_handsOut : ∃ h : MapHistory, h.memory.offset = 0x1000 ∧
    h.HandsOut 0x1000 5000 ∧ (h.map 0x1000 5000).1 = 0x11000 := by
  have hrun : Run (fun h size h' => (map 0x1000 h size).2 = h') (Ok 0x1000)
      ⟨new 0x10000, []⟩ (map 0x1000 ⟨new 0x10000, []⟩ 1).2 :=
    .tail (i := 1) .refl ⟨by decide, by decide, by decide, .inl (by decide)⟩ rfl
  have hok := (run_handsOut page4096 reserved_sample hrun).2.2.1 5000
    ⟨by decide, by decide, by decide, .inl (by decide)⟩
  exact ⟨_, by decide, hok, by decide⟩

/--
0 byte を二度取ると同じ address が返る。予約と同じ大きさは、空いていても断られる。`2^64 - 1` byte は、
何も commit せずに address が返る。
-/
theorem sampleMap_not_handsOut :
    ¬ (map 0x1000 ⟨new 0x10000, []⟩ 0).2.HandsOut 0x1000 0 ∧
      ¬ HandsOut 0x1000 ⟨new 0x10000, []⟩ guestSize ∧
      ¬ HandsOut 0x1000 ⟨new 0x10000, []⟩ 0xffffffffffffffff := by
  refine ⟨fun h => ?_, fun h => ?_, fun h => ?_⟩
  · have hapart := (h.fresh (by decide)).disjoint ⟨0x10000, 0x1000⟩ (by decide)
    revert hapart
    unfold Region.Disjoint
    decide
  · refine h.zero_iff.mp (by decide) ⟨0x10000, ?_⟩
    exact ⟨by decide, by decide, fun t ht => absurd ht List.not_mem_nil⟩
  · have hin := (h.fresh (by decide)).inside
    revert hin
    decide

end MapHistory

end GuestMemory

end AetherVM
