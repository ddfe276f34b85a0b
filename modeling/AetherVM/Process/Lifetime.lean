import AetherVM.Infra.Run
import AetherVM.Process.World

/-!
# 大域変数の寿命

`readonly` の engine を消すと、operand も register の表も page も消える。消した engine のほかに handler を
持つものがあれば、その handler は無いものを指すことになる。また `regoffs` は空のときしか読み込まれないので、
別の architecture の handler が先にあれば、その表のまま handler が作られる。

操作の列の途中でこの二つが起きない限り、どの handler の指すものも残っている。
-/

namespace AetherVM

open Infra

variable {μ : Type}

/-! ## 正しい handler -/

/--
handler の指すものが残っていること。`OHT_Remill` の引数は `operands` の、`OHT_MCInst` の引数は
`insts` の番号である。
-/
structure HandlerEntry.Valid (g : Globals μ) (x : HandlerEntry) : Prop where
  operand : x.handler.type = .remill → ∀ arg ∈ x.handler.args,
    arg.index < g.operands.items.length
  denotes : x.handler.type = .remill →
    x.handler.args.map (fun arg => g.operands.items[arg.index]?) = x.denotes
  inst : x.handler.type = .mcInst → ∀ arg ∈ x.handler.args, arg.index < g.insts.items.length
  regoffs : ∀ b, x.build = some b → b.reg = b.arch
  page : ∀ p, x.page = some p → p ∈ g.dynhandlers

/-- 共有の operand も page も使わない handler。 -/
def HandlerEntry.Independent (x : HandlerEntry) : Prop :=
  (x.handler.type = .remill → x.handler.args = []) ∧ x.page = none

namespace World

/-- `id` の object のほかに、handler を持つものがある。 -/
def HeldOutside (w : World μ) (id : Nat) (x : HandlerEntry) : Prop :=
  (∃ width, x ∈ w.emu width) ∨
    ∃ id' e width, id' ≠ id ∧ w.live id' = some e ∧ x ∈ e.handlers width

/-- 生きている engine か `EMU` が、handler を持っている。 -/
def Held (w : World μ) (x : HandlerEntry) : Prop :=
  (∃ width, x ∈ w.emu width) ∨ ∃ id e width, w.live id = some e ∧ x ∈ e.handlers width

/-- どの handler の指すものも残っている。 -/
def Safe (w : World μ) : Prop := ∀ x, w.Held x → x.Valid w.g

end World

namespace Toolchain

variable (tc : Toolchain μ)

/-- 列の opcode の handler が、すべて engine にある。 -/
def presentAll (engine : OpcodeEngine) (vs : List (Decoded × Bytes)) : Bool :=
  vs.all fun v => ((engine (.ofLength v.2.length)).find (opcodeKey v.2)).isSome

/-- `readonly` でない engine の `emulate` が、`init` まで進む。 -/
def emulateBuilds (arch : ArchType) (bytes : Bytes) (engine : OpcodeEngine) : Bool :=
  ((engine (.ofLength bytes.length)).find (opcodeKey bytes)).isNone &&
    (tc.decode arch (opcodeKey bytes)).inst.bytes.length ≠ 0

/-- 操作が handler を作るなら、その architecture。 -/
def builds (w : World μ) : Op → Option ArchType
  | .prefetch id mem size =>
    match w.live id, w.runtime with
    | some ⟨.binaryEngine _ true, handlers⟩, some arch =>
      if presentAll handlers (tc.visits arch mem size size 0) then none else some arch
    | _, _ => none
  | .encode id =>
    match w.live id, w.runtime with
    | some ⟨.preEncoder bin, handlers⟩, some arch =>
      if presentAll handlers (PreEncoder.visited tc arch bin) then none else some arch
    | _, _ => none
  | .emulate id span bytes =>
    match w.live id, w.runtime with
    | some ⟨.binaryEngine _ true, handlers⟩, some arch =>
      match tc.emulated arch span bytes with
      | none => none
      | some bytes =>
        if ((handlers (.ofLength bytes.length)).find (opcodeKey bytes)).any interprets then none
        else if tc.emulateBuilds arch bytes w.emu then some arch
        else none
    | _, _ => none
  | _ => none

/--
操作が handler を壊さない条件。handler を作るなら、`regoffs` は空か同じ architecture の表である。
object を消すなら、ほかに共有の operand や page を使う handler を持つものは無い。
-/
structure Ok (w : World μ) (op : Op) : Prop where
  builds : ∀ arch, tc.builds w op = some arch → w.g.regoffs.getD arch = arch
  delete : ∀ id, op = .delete id → ∀ x, w.HeldOutside id x → x.Independent

end Toolchain

/-! ## 大域変数が伸びること -/

/-- 登録された番号も、今の page も、消えたものを指さない。 -/
structure Globals.Inv (g : Globals μ) : Prop where
  operands : g.operands.Bounded OperandInfo.index
  insts : g.insts.Bounded OperandInfo.index
  page : ∀ p, g.pagestart = some p → p ∈ g.dynhandlers

/-- 後の大域変数は、前のものを何も消さずに伸ばしたものである。 -/
structure Globals.Grows (g g' : Globals μ) : Prop where
  operands : g.operands.Extends g'.operands
  insts : g.insts.Extends g'.insts
  dynhandlers : g.dynhandlers ⊆ g'.dynhandlers

theorem Globals.Grows.refl (g : Globals μ) : g.Grows g := ⟨.refl _, .refl _, fun _ hp => hp⟩

theorem Globals.Grows.trans {g₁ g₂ g₃ : Globals μ} (h : g₁.Grows g₂) (h' : g₂.Grows g₃) :
    g₁.Grows g₃ :=
  ⟨h.operands.trans h'.operands, h.insts.trans h'.insts,
    fun _ hp => h'.dynhandlers (h.dynhandlers hp)⟩

/-- 大域変数が伸びても、handler の指すものは変わらない。 -/
theorem HandlerEntry.Valid.mono {g g' : Globals μ} (h : g.Grows g') {x : HandlerEntry}
    (hx : x.Valid g) : x.Valid g' where
  operand := fun ht arg harg =>
    Nat.lt_of_lt_of_le (hx.operand ht arg harg) h.operands.items.length_le
  denotes := fun ht => by
    rw [← hx.denotes ht]
    refine List.map_congr_left fun arg harg => ?_
    have hlt := hx.operand ht arg harg
    rw [List.getElem?_eq_getElem hlt]
    exact h.operands.getElem? (List.getElem?_eq_getElem hlt)
  inst := fun ht arg harg => Nat.lt_of_lt_of_le (hx.inst ht arg harg) h.insts.items.length_le
  regoffs := hx.regoffs
  page := fun p hp => h.dynhandlers (hx.page p hp)

/-! ## handler を作ること -/

/-- operand の loop は table を伸ばし、返す番号はどれも table の中にある。 -/
theorem RemillEnv.initArgs_bounded {env : RemillEnv} : ∀ {args : List (RemillOperand × Bool)}
    {t t' : OperandTable} {infos : List OperandInfo}, t.Bounded OperandInfo.index →
    env.initArgs args t = .ok (t', infos) →
    t.Extends t' ∧ t'.Bounded OperandInfo.index ∧ ∀ info ∈ infos, info.index < t'.items.length
  | [], t, t', infos, hb, h => by
    cases h
    exact ⟨.refl _, hb, fun info hinfo => by cases hinfo⟩
  | arg :: args, t, t', infos, hb, h => by
    obtain ⟨⟨t₁, info⟩, h1, h⟩ := ok_of_bind_eq_ok h
    obtain ⟨⟨t₂, rest⟩, h2, h⟩ := ok_of_bind_eq_ok h
    cases h
    obtain ⟨hext, hlookup⟩ := Interner.intern_extends h1
    have hb₁ := Interner.intern_bounded hb (fun n => Nat.mod_le n _) h1
    obtain ⟨hext', hb', hrest⟩ := initArgs_bounded hb₁ h2
    refine ⟨hext.trans hext', hb', fun i hi => ?_⟩
    rcases List.mem_cons.mp hi with rfl | hi
    · exact Nat.lt_of_lt_of_le (hb₁ _ _ hlookup) hext'.items.length_le
    · exact hrest i hi

namespace Toolchain

variable {tc : Toolchain μ} {arch : ArchType}

/-- page を決めても、前の page は残り、決めた page は割り当てられている。 -/
theorem reservePage_spec {size page : Nat} {g g' : Globals μ}
    (h : tc.reservePage size g = (g', page)) (hg : g.Inv) :
    g'.Inv ∧ g.Grows g' ∧ g'.regoffs = g.regoffs ∧ page ∈ g'.dynhandlers := by
  -- 新しく割り当てるときは、`pagestart` の有無に依らない
  have halloc : ∀ {g' : Globals μ} {page : Nat},
      ({ g with
        dynhandlers := g.dynhandlers ++ [g.allocs], pagestart := some g.allocs, pagecur := 0
        allocs := g.allocs + 1 }, g.allocs) = (g', page) →
      g'.Inv ∧ g.Grows g' ∧ g'.regoffs = g.regoffs ∧ page ∈ g'.dynhandlers := by
    intro g' page h
    cases h
    have hmem : g.allocs ∈ g.dynhandlers ++ [g.allocs] :=
      List.mem_append_right _ (List.mem_singleton_self _)
    refine ⟨⟨hg.operands, hg.insts, fun p hp => ?_⟩,
      ⟨.refl _, .refl _, List.subset_append_left _ _⟩, rfl, hmem⟩
    rw [← Option.some.inj hp]
    exact hmem
  unfold reservePage at h
  split at h
  · next page' hstart =>
    split at h
    · exact halloc h
    · cases h
      exact ⟨hg, .refl _, rfl, hg.page _ hstart⟩
  · exact halloc h

/-- `init` は大域変数を伸ばす。作った handler は、`regoffs` が合っていれば正しい。 -/
theorem Inits.valid {opcode : Bytes} {decoded : Decoded} {g g' : Globals μ} {x : HandlerEntry}
    (h : tc.Inits arch opcode decoded g g' x) (hg : g.Inv) :
    g'.Inv ∧ g.Grows g' ∧ g'.regoffs = some (g.regoffs.getD arch) ∧
      x.build = some ⟨arch, g.regoffs.getD arch⟩ ∧
      (g.regoffs.getD arch = arch → x.Valid g') := by
  -- offset の表は最初に来た architecture のものが残る
  have hreg : ∀ {x : HandlerEntry}, x.build = some ⟨arch, g.regoffs.getD arch⟩ →
      g.regoffs.getD arch = arch → ∀ b, x.build = some b → b.reg = b.arch := by
    intro x hbuild heq b hb
    rw [hbuild] at hb
    rw [← Option.some.inj hb]
    exact heq
  cases h with
  | remill hfound hargs =>
    obtain ⟨hext, hb, hinfos⟩ := RemillEnv.initArgs_bounded hg.operands hargs
    refine ⟨⟨hb, hg.insts, hg.page⟩, ⟨hext, .refl _, fun _ hp => hp⟩, rfl, rfl, fun heq => ?_⟩
    exact ⟨fun _ => hinfos, fun _ => rfl, (nomatch ·), hreg rfl heq, fun p hp => by cases hp⟩
  | @mcInst insts info hfound harch hsp hinfo =>
    obtain ⟨hext, hlookup⟩ := Interner.intern_extends hinfo
    have hb := Interner.intern_bounded hg.insts (fun n => Nat.mod_le n _) hinfo
    refine ⟨⟨hg.operands, hb, hg.page⟩, ⟨.refl _, hext, fun _ hp => hp⟩, rfl, rfl, fun heq => ?_⟩
    refine ⟨(nomatch ·), (nomatch ·), fun _ arg harg => ?_, hreg rfl heq, fun p hp => by cases hp⟩
    rw [List.mem_singleton.mp harg]
    exact hb _ _ hlookup
  | abort hfound hsp =>
    refine ⟨⟨hg.operands, hg.insts, hg.page⟩, ⟨.refl _, .refl _, fun _ hp => hp⟩, rfl, rfl,
      fun heq => ?_⟩
    exact ⟨(nomatch ·), (nomatch ·), (nomatch ·), hreg rfl heq, fun p hp => by cases hp⟩
  | @code g₁ page oplen size hfound hsp hpage =>
    have hg₀ : (g.loadRegoffs arch).Inv := ⟨hg.operands, hg.insts, hg.page⟩
    obtain ⟨hg₁, hgrow, hregoffs, hmem⟩ := reservePage_spec hpage hg₀
    refine ⟨⟨hg₁.operands, hg₁.insts, hg₁.page⟩,
      ⟨hgrow.operands, hgrow.insts, hgrow.dynhandlers⟩, hregoffs, rfl, fun heq => ?_⟩
    refine ⟨(nomatch ·), (nomatch ·), (nomatch ·), hreg rfl heq, fun p hp => ?_⟩
    rw [← Option.some.inj hp]
    exact hmem

/--
engine に handler を加える変化。`c` が成り立つなら、加わった handler は正しい。
-/
structure Adds (c : Prop) (s s' : Globals μ × OpcodeEngine) : Prop where
  inv : s'.1.Inv
  grows : s.1.Grows s'.1
  kept : ∀ w x, x ∈ s.2 w → x ∈ s'.2 w
  fresh : c → ∀ w x, x ∈ s'.2 w → x ∈ s.2 w ∨ x.Valid s'.1

theorem Adds.refl {c : Prop} {s : Globals μ × OpcodeEngine} (hg : s.1.Inv) : Adds c s s :=
  ⟨hg, .refl _, fun _ _ hx => hx, fun _ _ _ hx => .inl hx⟩

theorem Adds.trans {c : Prop} {s₁ s₂ s₃ : Globals μ × OpcodeEngine} (h : Adds c s₁ s₂)
    (h' : Adds c s₂ s₃) : Adds c s₁ s₃ where
  inv := h'.inv
  grows := h.grows.trans h'.grows
  kept := fun w x hx => h'.kept w x (h.kept w x hx)
  fresh := fun hc w x hx => by
    rcases h'.fresh hc w x hx with hx | hvalid
    · exact (h.fresh hc w x hx).imp_right fun hvalid => hvalid.mono h'.grows
    · exact .inr hvalid

/-- handler を一つ加える。 -/
theorem adds_insert {c : Prop} {s : Globals μ × OpcodeEngine} {g : Globals μ} {x : HandlerEntry}
    (width : OpcodeWidth) (hg : g.Inv) (hgrow : s.1.Grows g) (hx : c → x.Valid g) :
    Adds c s (g, Function.update s.2 width ((s.2 width).insert x)) where
  inv := hg
  grows := hgrow
  kept := fun w y hy => mem_update_insert_of (.inr hy)
  fresh := fun hc w y hy => by
    rcases mem_update_insert hy with rfl | hy
    · exact .inr (hx hc)
    · exact .inl hy

/-- 列の命令を一つ読む。 -/
theorem prefetchOne_adds {decoded : Decoded} {bytes : Bytes} {s s' : Globals μ × OpcodeEngine}
    (h : tc.prefetchOne arch decoded bytes s = .ok s') (hg : s.1.Inv) :
    Adds (s.1.regoffs.getD arch = arch) s s' ∧
      s'.1.regoffs.getD arch = s.1.regoffs.getD arch := by
  simp only [prefetchOne] at h
  split at h
  · cases h
    exact ⟨.refl hg, rfl⟩
  · obtain ⟨⟨g, x⟩, hinit, h⟩ := ok_of_bind_eq_ok h
    cases h
    obtain ⟨hg', hgrow, hregoffs, -, hvalid⟩ := (init_inits hinit).valid hg
    refine ⟨adds_insert _ hg' hgrow hvalid, ?_⟩
    show g.regoffs.getD arch = s.1.regoffs.getD arch
    rw [hregoffs, Option.getD_some]

theorem prefetchAll_adds : ∀ {vs : List (Decoded × Bytes)} {s s' : Globals μ × OpcodeEngine},
    tc.prefetchAll arch vs s = .ok s' → s.1.Inv → Adds (s.1.regoffs.getD arch = arch) s s'
  | [], s, s', h, hg => by
    cases h
    exact .refl hg
  | v :: vs, s, s', h, hg => by
    obtain ⟨s₁, h1, h⟩ := ok_of_bind_eq_ok h
    obtain ⟨hadds, hregoffs⟩ := prefetchOne_adds h1 hg
    have hrest := prefetchAll_adds h hadds.inv
    rw [hregoffs] at hrest
    exact hadds.trans hrest

/-- 列の opcode がすべてあれば、何も変わらない。 -/
theorem prefetchAll_of_present : ∀ {vs : List (Decoded × Bytes)} {s s' : Globals μ × OpcodeEngine},
    tc.prefetchAll arch vs s = .ok s' → presentAll s.2 vs = true → s' = s
  | [], s, s', h, _ => by
    cases h
    rfl
  | v :: vs, s, s', h, hp => by
    obtain ⟨hv, hvs⟩ := Bool.and_eq_true_iff.mp hp
    obtain ⟨x, hx⟩ := Option.isSome_iff_exists.mp hv
    have hone : tc.prefetchOne arch v.1 v.2 s = .ok s := by simp only [prefetchOne, hx]
    rw [prefetchAll, hone] at h
    exact prefetchAll_of_present h hvs

/-- 無い opcode が列にあれば、handler が作られる。 -/
theorem prefetchAll_builds : ∀ {vs : List (Decoded × Bytes)} {s s' : Globals μ × OpcodeEngine},
    tc.prefetchAll arch vs s = .ok s' → s.1.Inv → presentAll s.2 vs = false →
    ∃ w x, x ∈ s'.2 w ∧ x.build = some ⟨arch, s.1.regoffs.getD arch⟩
  | [], s, s', _, _, hp => by cases hp
  | v :: vs, s, s', h, hg, hp => by
    obtain ⟨s₁, h1, h⟩ := ok_of_bind_eq_ok h
    have hadds := prefetchAll_adds h (prefetchOne_adds h1 hg).1.inv
    simp only [prefetchOne] at h1
    split at h1
    · next x hx =>
      cases h1
      refine prefetchAll_builds h hg ?_
      rw [presentAll, List.all_cons, hx] at hp
      exact hp
    · obtain ⟨⟨g, x⟩, hinit, h1⟩ := ok_of_bind_eq_ok h1
      cases h1
      obtain ⟨-, -, -, hbuild, -⟩ := (init_inits hinit).valid hg
      exact ⟨_, x, hadds.kept _ x (mem_update_insert_of (.inl ⟨rfl, rfl⟩)), hbuild⟩

theorem valid_blank (g : Globals μ) (opcode : Bytes) : (blank opcode).Valid g where
  operand := fun _ arg harg => by cases harg
  denotes := fun _ => rfl
  inst := (nomatch ·)
  regoffs := fun b hb => by cases hb
  page := fun p hp => by cases hp

/-- `readonly` の engine で実行できるのは、handler があるときだけである。 -/
theorem emulate_readonly {bytes : Bytes} {s s' : Globals μ × OpcodeEngine} {done : Bool}
    (h : tc.emulate true arch bytes s = .ok (s', done)) :
    ((s.2 (.ofLength bytes.length)).find (opcodeKey bytes)).any interprets = done := by
  simp only [emulate] at h
  split at h
  · next x hx =>
    cases h
    rw [hx, Option.any_some]
  · next hx =>
    cases h
    rw [hx, Option.any_none]

/-- `readonly` でない engine の `emulate`。 -/
theorem emulate_adds {bytes : Bytes} {s s' : Globals μ × OpcodeEngine} {done : Bool}
    (h : tc.emulate false arch bytes s = .ok (s', done)) (hg : s.1.Inv) :
    Adds (tc.emulateBuilds arch bytes s.2 = true → s.1.regoffs.getD arch = arch) s s' ∧
      (tc.emulateBuilds arch bytes s.2 = true →
        ∃ w x, x ∈ s'.2 w ∧ x.build = some ⟨arch, s.1.regoffs.getD arch⟩) := by
  simp only [emulate] at h
  split at h
  · next x hx =>
    cases h
    refine ⟨.refl hg, fun hb => ?_⟩
    rw [emulateBuilds, hx] at hb
    cases hb
  · next hx =>
    rw [if_neg Bool.false_ne_true] at h
    split at h
    · next hempty =>
      cases h
      refine ⟨adds_insert _ hg (.refl _) fun _ => valid_blank _ _, fun hb => ?_⟩
      exact absurd hempty (of_decide_eq_true (Bool.and_eq_true_iff.mp hb).2)
    · next hdecoded =>
      obtain ⟨⟨g, x⟩, hinit, h⟩ := ok_of_bind_eq_ok h
      cases h
      obtain ⟨hg', hgrow, -, hbuild, hvalid⟩ := (init_inits hinit).valid hg
      have hb : tc.emulateBuilds arch bytes s.2 = true := by
        rw [emulateBuilds, hx]
        exact decide_eq_true hdecoded
      exact ⟨adds_insert _ hg' hgrow fun hc => hvalid (hc hb),
        fun _ => ⟨_, x, mem_update_insert_of (.inl ⟨rfl, rfl⟩), hbuild⟩⟩

end Toolchain

/-! ## 操作の一つ -/

namespace World

variable {w : World μ} {id : Nat} {owner : Owner} {s : Globals μ × OpcodeEngine} {x : HandlerEntry}

theorem put_live : (w.put id owner s).live = Function.update w.live id (some ⟨owner, s.2⟩) := rfl

/-- engine を置き換えた後の handler は、前からあるものか、置いた engine のものである。 -/
theorem held_put (h : (w.put id owner s).Held x) : w.Held x ∨ ∃ width, x ∈ s.2 width := by
  rcases h with hemu | ⟨id', e, width, he, hx⟩
  · exact .inl (.inl hemu)
  · by_cases hid : id' = id
    · subst hid
      rw [put_live, Function.update_self] at he
      cases he
      exact .inr ⟨width, hx⟩
    · rw [put_live, Function.update_of_ne hid] at he
      exact .inl (.inr ⟨id', e, width, he, hx⟩)

theorem held_put_of_mem {width : OpcodeWidth} (h : x ∈ s.2 width) : (w.put id owner s).Held x :=
  .inr ⟨id, ⟨owner, s.2⟩, width, Function.update_self .., h⟩

theorem held_of_live {e : Live} (he : w.live id = some e) {width : OpcodeWidth}
    (h : x ∈ e.handlers width) : w.Held x := .inr ⟨id, e, width, he, h⟩

end World

namespace Toolchain

variable {tc : Toolchain μ}

/--
終わった操作の二つの形。一つは、ある engine に handler を加える（加えないこともある）もので、`s` から
`s'` への変化がその engine と大域変数である。もう一つは object を消すもので、大域変数を空にする。
-/
inductive Stepped (tc : Toolchain μ) (w : World μ) (op : Op) (w' : World μ) : Prop
  | adds (s s' : Globals μ × OpcodeEngine) (hop : ∀ id, op ≠ .delete id)
      (hs : s.1 = w.g) (hin : ∀ width x, x ∈ s.2 width → w.Held x)
      (hs' : w'.g = s'.1) (hout : ∀ width x, x ∈ s'.2 width → w'.Held x)
      (hheld : ∀ x, w'.Held x → w.Held x ∨ ∃ width, x ∈ s'.2 width)
      (hadds : w.g.Inv → Adds (∀ arch, tc.builds w op = some arch → w.g.regoffs.getD arch = arch)
        s s')
      (hbuilt : w.g.Inv → ∀ arch, tc.builds w op = some arch →
        ∃ width x, x ∈ s'.2 width ∧ x.build = some ⟨arch, w.g.regoffs.getD arch⟩)
  | clears {id : Nat} (hop : op = .delete id) (hg : w'.g = w.g.clear)
      (hheld : ∀ x, w'.Held x ↔ w.HeldOutside id x)

variable {w w' : World μ} {op : Op} {id : Nat} {e : Live} {owner : Owner} {arch : ArchType}

/-- 大域変数も `EMU` も変えず、handler も増やさない操作。 -/
theorem stepped_idle (hop : ∀ id, op ≠ .delete id) (hbuilds : tc.builds w op = none)
    (hg : w'.g = w.g) (hemu : w'.emu = w.emu) (hheld : ∀ x, w'.Held x → w.Held x) :
    tc.Stepped w op w' := by
  refine .adds (w.g, w.emu) (w.g, w.emu) hop rfl (fun width x hx => .inl ⟨width, hx⟩) hg
    (fun width x hx => .inl ⟨width, ?_⟩) (fun x hx => .inl (hheld x hx)) (fun hinv => .refl hinv)
    fun _ arch harch => ?_
  · rw [hemu]
    exact hx
  · rw [hbuilds] at harch
    cases harch

/-- 空の engine を持つ object を作る操作。 -/
theorem held_of_put_empty {g : Globals μ} {x : HandlerEntry}
    (h : (w.put id owner (g, fun _ => [])).Held x) : w.Held x := by
  rcases World.held_put h with h | ⟨width, hx⟩
  · exact h
  · cases hx

/-- object の engine に命令の列を読ませる操作。 -/
theorem stepped_prefetchAll {vs : List (Decoded × Bytes)} {s' : Globals μ × OpcodeEngine}
    (hop : ∀ id, op ≠ .delete id) (he : w.live id = some e)
    (h : tc.prefetchAll arch vs (w.g, e.handlers) = .ok s')
    (hbuilds : tc.builds w op = if presentAll e.handlers vs then none else some arch) :
    tc.Stepped w op (w.put id owner s') := by
  refine .adds (w.g, e.handlers) s' hop rfl
    (fun width x hx => World.held_of_live he hx) rfl (fun width x hx => World.held_put_of_mem hx)
    (fun x hx => World.held_put hx) (fun hg => ?_) fun hg a ha => ?_
  · cases hp : presentAll e.handlers vs with
    | true =>
      rw [prefetchAll_of_present h hp]
      exact .refl hg
    | false =>
      rw [hbuilds, hp]
      have hadds := prefetchAll_adds h hg
      exact ⟨hadds.inv, hadds.grows, hadds.kept, fun hc => hadds.fresh (hc arch rfl)⟩
  · cases hp : presentAll e.handlers vs with
    | true =>
      rw [hbuilds, hp] at ha
      cases ha
    | false =>
      rw [hbuilds, hp] at ha
      cases ha
      exact prefetchAll_builds h hg hp

/-- opcode を一つ実行する操作。 -/
theorem stepped_emulate {bytes : Bytes} (hop : ∀ id, op ≠ .delete id)
    {handlers : OpcodeEngine} (h : tc.emulateOpcode arch handlers bytes w = .ok w')
    (hbuilds : tc.builds w op =
      if ((handlers (.ofLength bytes.length)).find (opcodeKey bytes)).any interprets then none
      else if tc.emulateBuilds arch bytes w.emu then some arch
      else none) : tc.Stepped w op w' := by
  obtain ⟨⟨s₀, done⟩, hfirst, h⟩ := ok_of_bind_eq_ok h
  rw [emulate_readonly hfirst] at hbuilds
  cases done with
  | true =>
    cases h
    exact stepped_idle hop hbuilds rfl rfl fun x hx => hx
  | false =>
    rw [if_neg Bool.false_ne_true] at hbuilds
    obtain ⟨⟨s', result⟩, hsecond, h⟩ := ok_of_bind_eq_ok h
    cases h
    refine .adds (w.g, w.emu) s' hop rfl (fun width x hx => .inl ⟨width, hx⟩) rfl
      (fun width x hx => .inl ⟨width, hx⟩) (fun x hx => ?_) (fun hg => ?_) fun hg a ha => ?_
    · rcases hx with hemu | hlive
      · exact .inr hemu
      · exact .inl (.inr hlive)
    · obtain ⟨hadds, -⟩ := emulate_adds hsecond hg
      refine ⟨hadds.inv, hadds.grows, hadds.kept, fun hc => hadds.fresh fun hb => ?_⟩
      exact hc arch (by rw [hbuilds, if_pos hb])
    · rw [hbuilds] at ha
      split at ha
      · next hb =>
        cases ha
        exact (emulate_adds hsecond hg).2 hb
      · cases ha

/-- object を消すと、残るのは外の handler だけである。 -/
theorem held_delete {x : HandlerEntry} {g : Globals μ} {runtime : Option ArchType} :
    World.Held ⟨g, runtime, Function.update w.live id none, w.emu⟩ x ↔ w.HeldOutside id x := by
  refine or_congr .rfl (exists_congr fun id' => exists_congr fun e => exists_congr fun width => ?_)
  by_cases hid : id' = id
  · subst hid
    simp
  · simp [hid]

theorem runtimeArch_eq_ok (h : w.runtimeArch = .ok arch) : w.runtime = some arch := by
  unfold World.runtimeArch at h
  split at h
  · next hruntime =>
    cases h
    exact hruntime
  · cases h

theorem stepped_of_prefetch {mem : Nat → UInt8} {size : Nat}
    (h : tc.step w (.prefetch id mem size) = .ok w') : tc.Stepped w (.prefetch id mem size) w' := by
  simp only [step] at h
  split at h
  · next own handlers he =>
    obtain ⟨arch, harch, h⟩ := ok_of_bind_eq_ok h
    obtain ⟨s, hs, h⟩ := ok_of_bind_eq_ok h
    cases h
    rw [Toolchain.prefetch, prefetchLoop_eq] at hs
    refine stepped_prefetchAll (by rintro _ ⟨⟩) he hs ?_
    simp only [builds, he, runtimeArch_eq_ok harch, Nat.sub_zero]
  · next he =>
    cases h
    exact stepped_idle (by rintro _ ⟨⟩) (by simp only [builds, he]) rfl rfl fun x hx => hx
  · cases h

theorem stepped_of_encode (h : tc.step w (.encode id) = .ok w') :
    tc.Stepped w (.encode id) w' := by
  simp only [step] at h
  split at h
  · next bin handlers he =>
    split at h
    · next hempty =>
      -- 関数が無ければ `CPU.runtime` も読まれない
      cases h
      refine stepped_idle (by rintro _ ⟨⟩) ?_ rfl rfl fun x hx => hx
      cases hruntime : w.runtime with
      | none => simp only [builds, he, hruntime]
      | some arch =>
        simp only [builds, he, hruntime, PreEncoder.visited, hempty]
        rfl
    · obtain ⟨arch, harch, h⟩ := ok_of_bind_eq_ok h
      obtain ⟨s, hs, h⟩ := ok_of_bind_eq_ok h
      cases h
      rw [PreEncoder.prefetchFrom_eq] at hs
      refine stepped_prefetchAll (by rintro _ ⟨⟩) he hs ?_
      simp only [builds, he, runtimeArch_eq_ok harch]
      rfl
  · cases h

theorem stepped_of_emulate {span : Bool} {bytes : Bytes}
    (h : tc.step w (.emulate id span bytes) = .ok w') :
    tc.Stepped w (.emulate id span bytes) w' := by
  simp only [step] at h
  split at h
  · next own handlers he =>
    obtain ⟨arch, harch, h⟩ := ok_of_bind_eq_ok h
    split at h
    · next hspan =>
      cases h
      refine stepped_idle (by rintro _ ⟨⟩) ?_ rfl rfl fun x hx => hx
      simp only [builds, he, runtimeArch_eq_ok harch, hspan]
    · next bytes' hspan =>
      refine stepped_emulate (by rintro _ ⟨⟩) h ?_
      simp only [builds, he, runtimeArch_eq_ok harch, hspan]
  · next he =>
    cases h
    exact stepped_idle (by rintro _ ⟨⟩) (by simp only [builds, he]) rfl rfl fun x hx => hx
  · cases h

/-- 終わった操作は、二つの形のどちらかである。 -/
theorem stepped_of_step (h : tc.step w op = .ok w') : tc.Stepped w op w' := by
  -- 表に書き足すのは最後の三つで、空に戻すのは `delete` だけ
  cases op with
  | newEngine id arch machine =>
    simp only [step] at h
    split at h
    · cases h
    · cases h
      exact stepped_idle (by rintro _ ⟨⟩) rfl rfl rfl fun x hx => held_of_put_empty hx
  | newPreEncoder id bin =>
    simp only [step] at h
    split at h
    · cases h
    · cases h
      exact stepped_idle (by rintro _ ⟨⟩) rfl rfl rfl fun x hx => held_of_put_empty hx
  | delete id =>
    simp only [step] at h
    split at h
    · cases h
    · cases h
      exact .clears rfl rfl fun x => held_delete
  | enterThread id =>
    simp only [step] at h
    split at h
    · cases h
      exact stepped_idle (by rintro _ ⟨⟩) rfl rfl rfl fun x hx => hx
    · cases h
  | leaveThread id =>
    simp only [step] at h
    split at h
    · cases h
      exact stepped_idle (by rintro _ ⟨⟩) rfl rfl rfl fun x hx => hx
    · cases h
  | prefetch id mem size => exact stepped_of_prefetch h
  | encode id => exact stepped_of_encode h
  | emulate id span bytes => exact stepped_of_emulate h

/-! ## 操作の列 -/

/-- 大域変数も含めた不変条件。 -/
structure Inv (w : World μ) : Prop where
  globals : w.g.Inv
  safe : w.Safe

theorem inv_empty : Inv (World.empty : World μ) where
  globals := ⟨fun _ _ h => (nomatch h), fun _ _ h => (nomatch h), fun _ h => (nomatch h)⟩
  safe := fun x hx => by
    rcases hx with ⟨width, hx⟩ | ⟨id, e, width, he, -⟩
    · cases hx
    · cases he

/-- 空にした大域変数のもとで正しいのは、共有のものを使わない handler である。 -/
theorem valid_clear_iff {g : Globals μ} {x : HandlerEntry} (hx : x.Valid g) :
    x.Valid g.clear ↔ x.Independent := by
  refine ⟨fun h => ⟨fun ht => ?_, ?_⟩, fun h => ?_⟩
  · exact List.eq_nil_iff_forall_not_mem.mpr fun arg harg =>
      absurd (h.operand ht arg harg) (Nat.not_lt_zero _)
  · exact Option.eq_none_iff_forall_ne_some.mpr fun p hp => nomatch h.page p hp
  · refine ⟨fun ht arg harg => ?_, fun ht => ?_, hx.inst, hx.regoffs, fun p hp => ?_⟩
    · rw [h.1 ht] at harg
      cases harg
    · rw [← hx.denotes ht, h.1 ht]
      rfl
    · rw [h.2] at hp
      cases hp

/-- object を消した後も正しいのは、外に共有のものを使う handler が無いときに限る。 -/
theorem safe_clears_iff (hsafe : w.Safe) (hop : op = .delete id) (hg : w'.g = w.g.clear)
    (hheld : ∀ x, w'.Held x ↔ w.HeldOutside id x) : w'.Safe ↔ tc.Ok w op := by
  have hin : ∀ x, w.HeldOutside id x → w.Held x := by
    rintro x (hemu | ⟨id', e, width, -, he, hx⟩)
    · exact .inl hemu
    · exact .inr ⟨id', e, width, he, hx⟩
  subst hop
  refine ⟨fun hsafe' => ⟨fun _ harch => (nomatch harch), fun id' hid x hx => ?_⟩,
    fun hok x hx => ?_⟩
  · cases hid
    have hvalid := hsafe' x ((hheld x).mpr hx)
    rw [hg] at hvalid
    exact (valid_clear_iff (hsafe x (hin x hx))).mp hvalid
  · have hout := (hheld x).mp hx
    rw [hg]
    exact (valid_clear_iff (hsafe x (hin x hout))).mpr (hok.delete id rfl x hout)

/-- handler を加えた後も正しいのは、作るときの `regoffs` が合っているときに限る。 -/
theorem safe_adds_iff {s s' : Globals μ × OpcodeEngine} (hsafe : w.Safe)
    (hop : ∀ id, op ≠ .delete id) (hin : ∀ width x, x ∈ s.2 width → w.Held x)
    (hs : s.1 = w.g) (hs' : w'.g = s'.1) (hout : ∀ width x, x ∈ s'.2 width → w'.Held x)
    (hheld : ∀ x, w'.Held x → w.Held x ∨ ∃ width, x ∈ s'.2 width)
    (hadds : Adds (∀ arch, tc.builds w op = some arch → w.g.regoffs.getD arch = arch) s s')
    (hbuilt : ∀ arch, tc.builds w op = some arch →
      ∃ width x, x ∈ s'.2 width ∧ x.build = some ⟨arch, w.g.regoffs.getD arch⟩) :
    w'.Safe ↔ tc.Ok w op := by
  have hgrow := hadds.grows
  rw [hs] at hgrow
  refine ⟨fun hsafe' => ⟨fun arch harch => ?_, fun id hid => absurd hid (hop id)⟩,
    fun hok x hx => ?_⟩
  · obtain ⟨width, x, hx, hbuild⟩ := hbuilt arch harch
    exact (hsafe' x (hout width x hx)).regoffs _ hbuild
  · rw [hs']
    rcases hheld x hx with hx | ⟨width, hx⟩
    · exact (hsafe x hx).mono hgrow
    · rcases hadds.fresh hok.builds width x hx with hx | hvalid
      · exact (hsafe x (hin width x hx)).mono hgrow
      · exact hvalid

/-- 操作の後に handler の指すものが残っているのは、条件が成り立つときに限る。 -/
theorem step_safe_iff (hw : Inv w) (h : tc.step w op = .ok w') : w'.Safe ↔ tc.Ok w op := by
  cases stepped_of_step h with
  | adds s s' hop hs hin hs' hout hheld hadds hbuilt =>
    exact safe_adds_iff hw.safe hop hin hs hs' hout hheld (hadds hw.globals) (hbuilt hw.globals)
  | clears hop hg hheld => exact safe_clears_iff hw.safe hop hg hheld

theorem step_globals (hw : w.g.Inv) (h : tc.step w op = .ok w') : w'.g.Inv := by
  cases stepped_of_step h with
  | adds s s' hop hs hin hs' hout hheld hadds hbuilt =>
    rw [hs']
    exact (hadds hw).inv
  | clears hop hg hheld =>
    rw [hg]
    exact ⟨fun _ _ h => (nomatch h), hw.insts, fun _ h => (nomatch h)⟩

/-- 条件を満たす操作だけで着く状態。 -/
def Reaches (tc : Toolchain μ) (ok : World μ → Op → Prop) (w : World μ) : Prop :=
  Run (fun w op w' => tc.step w op = .ok w') ok World.empty w

theorem inv_of_reaches (h : tc.Reaches tc.Ok w) : Inv w :=
  h.invariant inv_empty fun _ _ _ hw hok hs =>
    ⟨step_globals hw.globals hs, (step_safe_iff hw hs).mpr hok⟩

/--
条件を満たす操作だけで着く状態では、生きている engine と `EMU` のどの handler についても、指すものが
作られたときのまま残っている。そこから条件を満たさない操作をすれば、必ず壊れる。
-/
theorem reaches_safe (h : tc.Reaches tc.Ok w) :
    w.Safe ∧ ∀ op w', tc.step w op = .ok w' → (w'.Safe ↔ tc.Ok w op) :=
  ⟨(inv_of_reaches h).safe, fun _ _ hs => step_safe_iff (inv_of_reaches h) hs⟩

/-- register の表が空なら、消すこと以外は条件を満たす。 -/
theorem ok_of_regoffs (hop : ∀ id, op ≠ .delete id) (h : w.g.regoffs = none) : tc.Ok w op where
  builds := fun arch _ => by rw [h, Option.getD_none]
  delete := fun id hid => absurd hid (hop id)

/-! ## 例 -/

/-- `ADD X0, X0, #5`。 -/
def sampleOpcode : Bytes := [0x00, 0x14, 0x00, 0x91]

/-- decode できるのが `ADD X0, X0, #5` だけの環境。 -/
def sampleProcess : Toolchain Unit where
  decode := fun _ bytes =>
    if bytes = sampleOpcode then
      ⟨⟨[0x41, 0x44, 0x44], sampleOpcode, [⟨64, .write, .reg ⟨[0x58, 0x30], 64, 0⟩⟩,
        ⟨64, .read, .reg ⟨[0x58, 0x30], 64, 0⟩⟩, ⟨64, .read, .imm 5 false⟩]⟩, true⟩
    else ⟨⟨[], [], []⟩, false⟩
  disassemble := fun _ _ => (0, ())
  hasSP := fun _ => false
  nativeCode := fun _ _ _ => []
  hash := fun bs => UInt64.ofNat (ofLE bs)
  tables := ⟨[⟨0x444441, 0x4000⟩], []⟩
  isPointerArg := fun _ _ n => n = 2
  loadRegoffs := fun _ name => if name = [0x58, 0x30] then some 544 else none
  pageBase := fun _ => 0
  pageSize := 0x1000
  abortImpl := 0

/-- engine を一つ作って命令を読ませただけなら、handler の operand は残っている。 -/
theorem sampleProcess_safe : ∃ w : World Unit, sampleProcess.Reaches sampleProcess.Ok w ∧
    (∃ x, w.Held x ∧ x.handler.args.length = 3) ∧ w.Safe := by
  have hstep : ∃ w₁ w₂ x, sampleProcess.step World.empty (.newEngine 0 .arm64 true) = .ok w₁ ∧
      sampleProcess.step w₁ (.prefetch 0 (fun i => sampleOpcode.getD i 0) 4) = .ok w₂ ∧
      w₁.g.regoffs = none ∧ w₂.Held x ∧ x.handler.args.length = 3 :=
    ⟨_, _, _, rfl, rfl, rfl, .inr ⟨0, _, .w4, rfl, List.mem_singleton_self _⟩, rfl⟩
  obtain ⟨w₁, w₂, x, h1, h2, hregoffs, hx, hargs⟩ := hstep
  have hrun : sampleProcess.Reaches sampleProcess.Ok w₂ :=
    .tail (.tail .refl (ok_of_regoffs (by nofun) rfl) h1) (ok_of_regoffs (by nofun) hregoffs) h2
  exact ⟨w₂, hrun, ⟨x, hx, hargs⟩, (reaches_safe hrun).1⟩

/--
engine を作り、`EMU` で命令を実行し、engine を消す。`EMU` に残った handler は、空になった operand の
table を指す。
-/
theorem sampleProcess_not_safe :
    ∃ w : World Unit, sampleProcess.Reaches (fun _ _ => True) w ∧ ¬ w.Safe := by
  have hstep : ∃ w₁ w₂ w₃ x,
      sampleProcess.step World.empty (.newEngine 0 .arm64 true) = .ok w₁ ∧
      sampleProcess.step w₁ (.emulate 0 false sampleOpcode) = .ok w₂ ∧
      sampleProcess.step w₂ (.delete 0) = .ok w₃ ∧
      w₃.Held x ∧ x.handler.type = .remill ∧ (⟨0, true⟩ : OperandInfo) ∈ x.handler.args ∧
      w₃.g.operands.items.length = 0 :=
    ⟨_, _, _, _, rfl, rfl, rfl, .inl ⟨.w4, List.mem_singleton_self _⟩, rfl,
      List.mem_cons_self, rfl⟩
  obtain ⟨w₁, w₂, w₃, x, h1, h2, h3, hx, htype, harg, hlen⟩ := hstep
  refine ⟨w₃, .tail (.tail (.tail .refl trivial h1) trivial h2) trivial h3, fun hsafe => ?_⟩
  have hlt := (hsafe x hx).operand htype _ harg
  rw [hlen] at hlt
  exact Nat.not_lt_zero _ hlt

end Toolchain

end AetherVM
