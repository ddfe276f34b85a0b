import Mathlib.Algebra.BigOperators.Group.List.Basic
import AetherVM.Infra.Mem

/-!
# register と memory のある機械

register は名前で引き、幅は register ごとに決まる。memory は番地で読み書きする。機械の扱う program の memory は
これと分けて `guest` に置く。

register の列を順に読み書きする loop（`loadAll`、`storeAll`）と、stack に積んで逆順に降ろす loop（`pushAll`、
`popAll`）について、一つの register の読み書きから全体の結果を言う。
-/

namespace AetherVM.Infra

/-- register の幅と、`n` byte の値 `v` を読み込んだあとの値。下位の `n` byte が `v` になる。 -/
structure RegisterModel (κ : Type) where
  width : κ → Nat
  fill : (k : κ) → BitVec (width k) → Nat → Nat → BitVec (width k)
  fill_low : ∀ k old n v, 8 * n ≤ width k → v < 256 ^ n → (fill k old n v).toNat % 256 ^ n = v

variable {κ : Type}

abbrev RegisterModel.Values (M : RegisterModel κ) : Type := (k : κ) → BitVec (M.width k)

structure Machine (M : RegisterModel κ) (G : Type) where
  regs : M.Values
  mem : Mem
  guest : G

/-- 機械の扱う program の一つの命令。 -/
abbrev Effect (M : RegisterModel κ) (G : Type) : Type := M.Values → G → M.Values × G

/-- `used` の register だけを読み書きすること。 -/
structure Effect.Confined {M : RegisterModel κ} {G : Type} (f : Effect M G) (used : κ → Prop) :
    Prop where
  writes : ∀ R g k, ¬ used k → (f R g).1 k = R k
  reads : ∀ R R' g, (∀ k, used k → R k = R' k) →
    (∀ k, used k → (f R g).1 k = (f R' g).1 k) ∧ (f R g).2 = (f R' g).2

/-- 一つの register に、register から計算した値を書く命令。 -/
def Effect.write {M : RegisterModel κ} {G : Type} [DecidableEq κ] (k : κ)
    (v : M.Values → BitVec (M.width k)) : Effect M G :=
  fun R g => (Function.update R k (v R), g)

theorem Effect.write_confined {M : RegisterModel κ} {G : Type} [DecidableEq κ] {k : κ}
    {v : M.Values → BitVec (M.width k)} {used : κ → Prop} (hk : used k)
    (hv : ∀ R R', (∀ j, used j → R j = R' j) → v R = v R') :
    (Effect.write (G := G) k v).Confined used where
  writes := fun R g j hj => Function.update_of_ne (fun heq => hj (by rw [heq]; exact hk)) _ _
  reads := fun R R' g hR => by
    refine ⟨fun j hj => ?_, rfl⟩
    by_cases hne : j = k
    · subst hne
      simp only [Effect.write, Function.update_self, hv R R' hR]
    · simp only [Effect.write, Function.update_of_ne hne, hR j hj]

/-- `covered` の bit だけを読み書きすること。 -/
structure Effect.BitConfined {M : RegisterModel κ} {G : Type} (f : Effect M G)
    (covered : κ → Nat → Prop) : Prop where
  writes : ∀ R g k j, ¬ covered k j → ((f R g).1 k).getLsbD j = (R k).getLsbD j
  reads : ∀ R R' g, (∀ k j, covered k j → (R k).getLsbD j = (R' k).getLsbD j) →
    (∀ k j, covered k j → ((f R g).1 k).getLsbD j = ((f R' g).1 k).getLsbD j) ∧
      (f R g).2 = (f R' g).2

theorem Effect.BitConfined.confined {M : RegisterModel κ} {G : Type} {f : Effect M G}
    {covered : κ → Nat → Prop} {used : κ → Prop} (h : f.BitConfined covered)
    (hused : ∀ k j, covered k j → used k) : f.Confined used where
  writes := fun R g k hk =>
    BitVec.eq_of_getLsbD_eq fun j _ => h.writes R g k j fun hj => hk (hused k j hj)
  reads := fun R R' g hR => by
    have hreads := h.reads R R' g fun k j hj => by rw [hR k (hused k j hj)]
    refine ⟨fun k hk => BitVec.eq_of_getLsbD_eq fun j _ => ?_, hreads.2⟩
    by_cases hj : covered k j
    · exact hreads.1 k j hj
    · rw [h.writes R g k j hj, h.writes R' g k j hj, hR k hk]

/-- `k` の `j` 番目の bit を反転する命令。 -/
def Effect.flip {M : RegisterModel κ} {G : Type} [DecidableEq κ] (k : κ) (j : Nat) : Effect M G :=
  Effect.write k fun R => R k ^^^ BitVec.twoPow _ j

section Flip

variable {M : RegisterModel κ} {G : Type} [DecidableEq κ] (k : κ) (i : Nat)

theorem Effect.flip_apply (R : M.Values) (g : G) {k' : κ} {j : Nat} (hne : k' ≠ k ∨ j ≠ i) :
    ((Effect.flip k i R g).1 k').getLsbD j = (R k').getLsbD j := by
  by_cases hk : k' = k
  · subst hk
    have hj : i ≠ j := fun h => hne.elim (fun h' => h' rfl) fun h' => h' h.symm
    simp [Effect.flip, Effect.write, BitVec.getLsbD_twoPow, hj]
  · simp only [Effect.flip, Effect.write, Function.update_of_ne hk]

theorem Effect.flip_self (R : M.Values) (g : G) (hi : i < M.width k) :
    ((Effect.flip k i R g).1 k).getLsbD i = !(R k).getLsbD i := by
  simp [Effect.flip, Effect.write, hi]

theorem Effect.flip_bitConfined {covered : κ → Nat → Prop} (hcovered : covered k i)
    (hi : i < M.width k) : (Effect.flip (M := M) (G := G) k i).BitConfined covered where
  writes := fun R g k' j hj => by
    refine flip_apply k i R g (not_and_or.mp fun h => hj ?_)
    obtain ⟨rfl, rfl⟩ := h
    exact hcovered
  reads := fun R R' g hR => by
    refine ⟨fun k' j hj => ?_, rfl⟩
    by_cases h : k' = k ∧ j = i
    · obtain ⟨rfl, rfl⟩ := h
      rw [flip_self _ _ R g hi, flip_self _ _ R' g hi, hR _ _ hcovered]
    · have hne : k' ≠ k ∨ j ≠ i := not_and_or.mp h
      rw [flip_apply k i R g hne, flip_apply k i R' g hne, hR k' j hj]

end Flip

/-- 二つの幅が等しければ、番地の計算も等しい。 -/
theorem toNat_setWidth_add {w w' : Nat} (h : w = w') (x : BitVec w) (off : Int) :
    (x.setWidth w' + BitVec.ofInt w' off).toNat = (x + BitVec.ofInt w off).toNat := by
  subst h
  rw [BitVec.setWidth_eq]

/-- 桁あふれしない番地の計算。 -/
theorem toNat_add_ofInt {w : Nat} (x : BitVec w) (off : Int) (h0 : 0 ≤ x.toNat + off)
    (h1 : x.toNat + off < 2 ^ w) : ((x + BitVec.ofInt w off).toNat : Int) = x.toNat + off := by
  rw [BitVec.toNat_add, Int.natCast_emod, Int.natCast_add, BitVec.toNat_ofInt, Int.toNat_of_nonneg]
  · push_cast
    rw [Int.add_emod_emod, Int.emod_eq_of_lt h0 h1]
  · exact Int.emod_nonneg _ (by exact_mod_cast Nat.pos_iff_ne_zero.mp (Nat.two_pow_pos w))

theorem low_full {w n : Nat} (h : w = 8 * n) (x : BitVec w) : x.toNat % 256 ^ n = x.toNat := by
  subst h
  have hlt := x.isLt
  rw [Nat.pow_mul] at hlt
  exact Nat.mod_eq_of_lt hlt

namespace Machine

variable [DecidableEq κ] {M : RegisterModel κ} {G : Type}

/-! ## 一つの register の読み書き -/

def set (s : Machine M G) (k : κ) (v : BitVec (M.width k)) : Machine M G :=
  { s with regs := Function.update s.regs k v }

@[simp] theorem set_mem (s : Machine M G) (k : κ) (v) : (s.set k v).mem = s.mem := rfl
@[simp] theorem set_guest (s : Machine M G) (k : κ) (v) : (s.set k v).guest = s.guest := rfl
@[simp] theorem set_regs_self (s : Machine M G) (k : κ) (v) : (s.set k v).regs k = v :=
  Function.update_self _ _ _

theorem set_regs_of_ne (s : Machine M G) {k j : κ} (h : j ≠ k) (v) :
    (s.set k v).regs j = s.regs j :=
  Function.update_of_ne h _ _

/-- `base` の値から `off` だけ離れた番地。 -/
def address (s : Machine M G) (base : κ) (off : Int) : Nat :=
  (s.regs base + BitVec.ofInt _ off).toNat

def load (s : Machine M G) (k base : κ) (off : Int) (n : Nat) : Machine M G :=
  s.set k (M.fill k (s.regs k) n (s.mem.loadLE (s.address base off) n))

def store (s : Machine M G) (k base : κ) (off : Int) (n : Nat) : Machine M G :=
  { s with mem := s.mem.storeLE (s.address base off) n (s.regs k).toNat }

def move (s : Machine M G) (dst src : κ) : Machine M G := s.set dst ((s.regs src).setWidth _)

def addImm (s : Machine M G) (dst src : κ) (imm : Int) : Machine M G :=
  s.set dst ((s.regs src + BitVec.ofInt _ imm).setWidth _)

/-- stack pointer を `stride` だけ下げて、`k` の下位の `n` byte を積む。 -/
def push (s : Machine M G) (sp k : κ) (stride n : Nat) : Machine M G :=
  (s.set sp (s.regs sp - BitVec.ofNat _ stride)).store k sp 0 n

/-- `k` に `n` byte を降ろして、stack pointer を `stride` だけ上げる。 -/
def pop (s : Machine M G) (sp k : κ) (stride n : Nat) : Machine M G :=
  let s' := s.load k sp 0 n
  s'.set sp (s'.regs sp + BitVec.ofNat _ stride)

def effect (s : Machine M G) (f : Effect M G) : Machine M G :=
  { s with regs := (f s.regs s.guest).1, guest := (f s.regs s.guest).2 }

section Effect

variable (s : Machine M G) (f : Effect M G)

omit [DecidableEq κ] in
@[simp] theorem effect_regs : (s.effect f).regs = (f s.regs s.guest).1 := rfl

omit [DecidableEq κ] in
@[simp] theorem effect_mem : (s.effect f).mem = s.mem := rfl

omit [DecidableEq κ] in
@[simp] theorem effect_guest : (s.effect f).guest = (f s.regs s.guest).2 := rfl

end Effect

omit [DecidableEq κ] in
theorem address_zero (s : Machine M G) (base : κ) : s.address base 0 = (s.regs base).toNat := by
  simp [address]

/-! ## 列の読み書き -/

def loadAll (base : κ) (off : κ → Int) (n : κ → Nat) (l : List κ) (s : Machine M G) :
    Machine M G :=
  l.foldl (fun s k => s.load k base (off k) (n k)) s

def storeAll (base : κ) (off : κ → Int) (n : κ → Nat) (l : List κ) (s : Machine M G) :
    Machine M G :=
  l.foldl (fun s k => s.store k base (off k) (n k)) s

def pushAll (sp : κ) (stride n : κ → Nat) (l : List κ) (s : Machine M G) : Machine M G :=
  l.foldl (fun s k => s.push sp k (stride k) (n k)) s

def popAll (sp : κ) (stride n : κ → Nat) (l : List κ) (s : Machine M G) : Machine M G :=
  l.foldl (fun s k => s.pop sp k (stride k) (n k)) s

variable {base sp : κ} {off : κ → Int} {n stride : κ → Nat} {l : List κ} {s s' : Machine M G}

/-- 列の register に、それぞれの番地の値を一度に入れたもの。 -/
def loadedRegs (base : κ) (off : κ → Int) (n : κ → Nat) (l : List κ) (s : Machine M G) : M.Values :=
  fun k =>
    if k ∈ l then M.fill k (s.regs k) (n k) (s.mem.loadLE (s.address base (off k)) (n k))
    else s.regs k

/-- 番地の基準になる register を読み込まなければ、列のどの register にも自分の番地の値が入る。 -/
theorem loadAll_eq (hbase : base ∉ l) (hnodup : l.Nodup) :
    loadAll base off n l s = { s with regs := loadedRegs base off n l s } := by
  induction l generalizing s with
  | nil => rfl
  | cons j rest ih =>
    simp only [List.mem_cons, not_or] at hbase
    rw [List.nodup_cons] at hnodup
    have hstep : loadAll base off n (j :: rest) s =
        loadAll base off n rest (s.load j base (off j) (n j)) := rfl
    rw [hstep, ih hbase.2 hnodup.2]
    have haddr : ∀ k, (s.load j base (off j) (n j)).address base (off k) =
        s.address base (off k) := by
      intro k
      rw [address, load, set_regs_of_ne _ hbase.1, address]
    have hregs : loadedRegs base off n rest (s.load j base (off j) (n j)) =
        loadedRegs base off n (j :: rest) s := by
      funext k
      simp only [loadedRegs, haddr, List.mem_cons]
      by_cases hk : k = j
      · subst hk
        simp [hnodup.1, load]
      · simp [hk, load, set_regs_of_ne]
    rw [hregs]
    rfl

/-- 列の register をそれぞれの番地に書いた memory。 -/
def storeSlots (addr n v : κ → Nat) (l : List κ) (m : Mem) : Mem :=
  l.foldl (fun m k => m.storeLE (addr k) (n k) (v k)) m

omit [DecidableEq κ] in
theorem storeAll_eq : storeAll base off n l s =
    { s with mem :=
        storeSlots (fun k => s.address base (off k)) n (fun k => (s.regs k).toNat) l s.mem } := by
  induction l generalizing s with
  | nil => rfl
  | cons j rest ih => exact ih

section StoreSlots

variable {addr v : κ → Nat} {m : Mem}

omit [DecidableEq κ] in
theorem storeSlots_outside {a : Nat} (h : ∀ k ∈ l, a < addr k ∨ addr k + n k ≤ a) :
    storeSlots addr n v l m a = m a := by
  induction l generalizing m with
  | nil => rfl
  | cons j rest ih =>
    rw [List.forall_mem_cons] at h
    have hstep : storeSlots addr n v (j :: rest) m =
        storeSlots addr n v rest (m.storeLE (addr j) (n j) (v j)) := rfl
    rw [hstep, ih h.2, Mem.storeLE_outside h.1]

omit [DecidableEq κ] in
/-- 番地が重ならなければ、どの番地にも自分の値が残る。 -/
theorem loadLE_storeSlots {k : κ}
    (h : l.Pairwise fun i j => addr i + n i ≤ addr j ∨ addr j + n j ≤ addr i) (hk : k ∈ l) :
    (storeSlots addr n v l m).loadLE (addr k) (n k) = v k % 256 ^ n k := by
  induction l generalizing m with
  | nil => simp at hk
  | cons j rest ih =>
    rw [List.pairwise_cons] at h
    have hstep : storeSlots addr n v (j :: rest) m =
        storeSlots addr n v rest (m.storeLE (addr j) (n j) (v j)) := rfl
    rw [hstep]
    rcases List.mem_cons.mp hk with rfl | hk
    · rw [← Mem.loadLE_storeLE_mod m (addr k) (n k) (v k)]
      refine Mem.loadLE_eq_iff.mpr fun i hi => storeSlots_outside fun j hj => ?_
      have := h.1 j hj
      omega
    · exact ih h.2 hk

end StoreSlots

/-! ## stack -/

section Stack

/-- 積む byte の数。 -/
def frame (stride : κ → Nat) (l : List κ) : Nat := (l.map stride).sum

omit [DecidableEq κ] in
theorem frame_append (stride : κ → Nat) (l₁ l₂ : List κ) :
    frame stride (l₁ ++ l₂) = frame stride l₁ + frame stride l₂ := by
  rw [frame, List.map_append, List.sum_append, frame, frame]

omit [DecidableEq κ] in
theorem frame_le {c : Nat} (h : ∀ k ∈ l, stride k ≤ c) : frame stride l ≤ l.length * c := by
  induction l with
  | nil => exact Nat.zero_le _
  | cons k rest ih =>
    rw [List.forall_mem_cons] at h
    have hrest := ih h.2
    have hk := h.1
    simp only [frame, List.map_cons, List.sum_cons, List.length_cons, Nat.add_mul] at hrest ⊢
    omega

omit [DecidableEq κ] in
theorem toNat_sub_ofNat {w : Nat} {x : BitVec w} {c : Nat} (h : c ≤ x.toNat) :
    (x - BitVec.ofNat w c).toNat = x.toNat - c := by
  have hlt := x.isLt
  have hc : (BitVec.ofNat w c).toNat = c := by
    rw [BitVec.toNat_ofNat]
    exact Nat.mod_eq_of_lt (by omega)
  rw [BitVec.toNat_sub_of_le (by rw [BitVec.le_def, hc]; exact h), hc]

theorem push_mem (s : Machine M G) {k : κ} (hk : k ≠ sp) (c i : Nat) :
    (s.push sp k c i).mem =
      s.mem.storeLE (s.regs sp - BitVec.ofNat _ c).toNat i (s.regs k).toNat := by
  simp only [push, store, set_mem, address_zero, set_regs_self, set_regs_of_ne _ hk]

@[simp] theorem push_regs (s : Machine M G) (k : κ) (c i : Nat) :
    (s.push sp k c i).regs = Function.update s.regs sp (s.regs sp - BitVec.ofNat _ c) := rfl

theorem pushAll_regs (l : List κ) (s : Machine M G) :
    (pushAll sp stride n l s).regs =
      Function.update s.regs sp (s.regs sp - BitVec.ofNat _ (frame stride l)) := by
  induction l generalizing s with
  | nil => simp [pushAll, frame]
  | cons k rest ih =>
    have hstep : pushAll sp stride n (k :: rest) s =
        pushAll sp stride n rest (s.push sp k (stride k) (n k)) := rfl
    rw [hstep, ih, push_regs, Function.update_idem, Function.update_self]
    congr 1
    rw [frame, frame, List.map_cons, List.sum_cons, BitVec.ofNat_add, BitVec.sub_sub]

theorem pushAll_guest (l : List κ) (s : Machine M G) :
    (pushAll sp stride n l s).guest = s.guest := by
  induction l generalizing s with
  | nil => rfl
  | cons k rest ih => exact ih _

/-- 積む範囲の外の memory は変わらない。 -/
theorem pushAll_mem (hsp : sp ∉ l) (hn : ∀ k ∈ l, n k ≤ stride k)
    (hframe : frame stride l ≤ (s.regs sp).toNat) {a : Nat}
    (ha : a < (s.regs sp).toNat - frame stride l ∨ (s.regs sp).toNat ≤ a) :
    (pushAll sp stride n l s).mem a = s.mem a := by
  induction l generalizing s with
  | nil => rfl
  | cons k rest ih =>
    simp only [List.mem_cons, not_or] at hsp
    rw [List.forall_mem_cons] at hn
    simp only [frame, List.map_cons, List.sum_cons] at hframe ha
    have hstep : pushAll sp stride n (k :: rest) s =
        pushAll sp stride n rest (s.push sp k (stride k) (n k)) := rfl
    have hnew : ((s.push sp k (stride k) (n k)).regs sp).toNat = (s.regs sp).toNat - stride k := by
      rw [push_regs, Function.update_self, toNat_sub_ofNat (by omega)]
    have hk := hn.1
    rw [hstep, ih hsp.2 hn.2 (by rw [hnew, frame]; omega) (by rw [hnew, frame]; omega),
      push_mem _ (Ne.symm hsp.1), toNat_sub_ofNat (by omega)]
    exact Mem.storeLE_outside (by omega)

theorem pop_regs_of_ne {k j : κ} (hk : j ≠ k) (hj : j ≠ sp) (c i : Nat) :
    (s.pop sp k c i).regs j = s.regs j := by
  rw [pop, set_regs_of_ne _ hj, load, set_regs_of_ne _ hk]

theorem pop_regs_sp {k : κ} (hk : sp ≠ k) (c i : Nat) :
    (s.pop sp k c i).regs sp = s.regs sp + BitVec.ofNat _ c := by
  simp only [pop, set_regs_self, load, set_regs_of_ne _ hk]

theorem pop_regs_self {k : κ} (hk : k ≠ sp) (c i : Nat) :
    (s.pop sp k c i).regs k = M.fill k (s.regs k) i (s.mem.loadLE (s.regs sp).toNat i) := by
  rw [pop, set_regs_of_ne _ hk, load, set_regs_self, address_zero]

theorem popAll_mem_guest (l : List κ) (s : Machine M G) :
    (popAll sp stride n l s).mem = s.mem ∧ (popAll sp stride n l s).guest = s.guest := by
  induction l generalizing s with
  | nil => exact ⟨rfl, rfl⟩
  | cons k rest ih => exact ih _

theorem popAll_regs_of_notMem {j : κ} (hj : j ∉ l) (hsp : j ≠ sp) :
    (popAll sp stride n l s).regs j = s.regs j := by
  induction l generalizing s with
  | nil => rfl
  | cons k rest ih =>
    simp only [List.mem_cons, not_or] at hj
    have hstep : popAll sp stride n (k :: rest) s =
        popAll sp stride n rest (s.pop sp k (stride k) (n k)) := rfl
    rw [hstep, ih hj.2, pop_regs_of_ne hj.1 hsp]

theorem popAll_append (l₁ l₂ : List κ) (s : Machine M G) :
    popAll sp stride n (l₁ ++ l₂) s = popAll sp stride n l₂ (popAll sp stride n l₁ s) :=
  List.foldl_append

/--
積んだものを逆順に降ろせば、stack pointer も、積んだ register の下位の byte も元に戻る。降ろすまでの間に stack を
書かなければ、ほかの register と memory が変わっていてもよい。
-/
theorem popAll_pushAll (hsp : sp ∉ l) (hnodup : l.Nodup)
    (hn : ∀ k ∈ l, n k ≤ stride k) (hwidth : ∀ k ∈ l, 8 * n k ≤ M.width k)
    (hframe : frame stride l ≤ (s.regs sp).toNat)
    (hregs : s'.regs sp = (pushAll sp stride n l s).regs sp)
    (hmem : ∀ a, (s.regs sp).toNat - frame stride l ≤ a → a < (s.regs sp).toNat →
      s'.mem a = (pushAll sp stride n l s).mem a) :
    (popAll sp stride n l.reverse s').regs sp = s.regs sp ∧
      ∀ k ∈ l, ((popAll sp stride n l.reverse s').regs k).toNat % 256 ^ n k =
        (s.regs k).toNat % 256 ^ n k := by
  induction l generalizing s with
  | nil =>
    refine ⟨?_, fun k hk => absurd hk List.not_mem_nil⟩
    rw [List.reverse_nil]
    exact hregs
  | cons k rest ih =>
    simp only [List.mem_cons, not_or] at hsp
    rw [List.nodup_cons] at hnodup
    rw [List.forall_mem_cons] at hn hwidth
    simp only [frame, List.map_cons, List.sum_cons] at hframe hmem
    have hk : k ≠ sp := Ne.symm hsp.1
    -- `k` を積んだあとの状態について、残りの列の結果を使う
    have hstep : pushAll sp stride n (k :: rest) s =
        pushAll sp stride n rest (s.push sp k (stride k) (n k)) := rfl
    have hsp₁ : ((s.push sp k (stride k) (n k)).regs sp).toNat = (s.regs sp).toNat - stride k := by
      rw [push_regs, Function.update_self, toNat_sub_ofNat (by omega)]
    rw [hstep] at hregs hmem
    have hrest : frame stride rest ≤ ((s.push sp k (stride k) (n k)).regs sp).toNat := by
      rw [hsp₁, frame]
      omega
    obtain ⟨hspt, hlow⟩ := ih (s := s.push sp k (stride k) (n k)) hsp.2 hnodup.2 hn.2 hwidth.2
      hrest hregs fun a h1 h2 => hmem a (by rw [hsp₁, frame] at h1; omega) (by omega)
    rw [List.reverse_cons, popAll_append]
    -- 最後に降ろす `k` の値は、積んだときのまま残っている
    have hvalue : ((popAll sp stride n rest.reverse s').mem.loadLE
        ((s.regs sp).toNat - stride k) (n k)) = (s.regs k).toNat % 256 ^ n k := by
      rw [(popAll_mem_guest _ _).1, ← Mem.loadLE_storeLE_mod s.mem ((s.regs sp).toNat - stride k)]
      refine Mem.loadLE_eq_iff.mpr fun i hi => ?_
      have hle := hn.1
      have hpos := hmem ((s.regs sp).toNat - stride k + i) (by omega) (by omega)
      rw [hpos, pushAll_mem hsp.2 hn.2 hrest (by rw [hsp₁]; omega), push_mem _ hk,
        toNat_sub_ofNat (by omega)]
    change ((popAll sp stride n rest.reverse s').pop sp k (stride k) (n k)).regs sp = _ ∧
      ∀ j ∈ k :: rest, (((popAll sp stride n rest.reverse s').pop sp k (stride k) (n k)).regs
        j).toNat % _ = _
    refine ⟨?_, fun j hj => ?_⟩
    · rw [pop_regs_sp hsp.1, hspt, push_regs, Function.update_self, BitVec.sub_add_cancel]
    · rcases List.mem_cons.mp hj with rfl | hj
      · rw [pop_regs_self hk, hspt, hsp₁, hvalue, M.fill_low _ _ _ _ hwidth.1
          (Nat.mod_lt _ (Nat.pow_pos (by decide)))]
      · have hjk : j ≠ k := fun heq => hnodup.1 (heq ▸ hj)
        have hjsp : j ≠ sp := fun heq => hsp.2 (heq ▸ hj)
        rw [pop_regs_of_ne hjk hjsp, hlow j hj, push_regs, Function.update_of_ne hjsp]

end Stack

end Machine

end AetherVM.Infra
