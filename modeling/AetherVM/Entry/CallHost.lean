import AetherVM.Entry.Frame

/-!
# host の関数の呼び出し（`src/AArch64.cpp` の `call_host`）

解釈実行の途中で guest が host の関数に飛ぶと、`call_host` が guest に代わって呼ぶ。guest の引数の register と stack
pointer を読み込み、関数から戻ったら、結果の register だけを `State` に書き戻す。stack を切り替える間、host の stack
pointer は、関数の保つ `x21` に置いておく。

呼ぶ host の関数は、番地から決まる parameter である。
-/

namespace AetherVM

namespace Entry.AArch64

open Infra Lifter Lifter.AArch64

variable {G : Type}

/-! ## 命令の列 -/

/-- vector register の `stp` と `ldp`。 -/
def stpQ (i j : Fin 32) (base : HostReg) (off : Int) : List (Code G) :=
  [.asm (.str (.q i) base off), .asm (.str (.q j) base (off + 0x10))]

def ldpQ (i j : Fin 32) (base : HostReg) (off : Int) : List (Code G) :=
  [.asm (.ldr (.q i) base off), .asm (.ldr (.q j) base (off + 0x10))]

/-- host の register を退避して、引数を `x19`、`x20`、`x16` に移すまで。 -/
def callSave : List (Code G) :=
  .asm (.add .sp .sp (-0x30)) :: stp (.x 19) (.x 20) .sp 0 ++ .asm (.str (.x 21) .sp 0x10) ::
  stp (.x 29) (.x 30) .sp 0x20 ++
  [.asm (.add (.x 29) .sp 0x20), .asm (.mov (.x 19) (.x 0)), .asm (.mov (.x 20) (.x 1)),
    .asm (.mov (.x 21) .sp), .asm (.mov (.x 16) (.x 2))]

/-- guest の引数の register と stack pointer を読み込む。 -/
def callLoad : List (Code G) :=
  ldpQ 0 1 (.x 20) 0 ++ ldpQ 2 3 (.x 20) 0x20 ++ ldpQ 4 5 (.x 20) 0x40 ++ ldpQ 6 7 (.x 20) 0x60 ++
  [.asm (.ldr (.x 0) (.x 19) 0), .asm (.ldr (.x 1) (.x 19) 0x10),
    .asm (.ldr (.x 2) (.x 19) 0x20), .asm (.ldr (.x 3) (.x 19) 0x30),
    .asm (.ldr (.x 4) (.x 19) 0x40), .asm (.ldr (.x 5) (.x 19) 0x50),
    .asm (.ldr (.x 6) (.x 19) 0x60), .asm (.ldr (.x 7) (.x 19) 0x70),
    .asm (.ldr (.x 8) (.x 19) 0x80), .asm (.ldr (.x 9) (.x 19) 0x1f0), .asm (.mov .sp (.x 9))]

/-- 結果を `State` に書き戻し、host の register を元に戻す。 -/
def callStore : List (Code G) :=
  .asm (.mov .sp (.x 21)) :: stpQ 0 1 (.x 20) 0 ++ stpQ 2 3 (.x 20) 0x20 ++
  [.asm (.str (.x 0) (.x 19) 0), .asm (.str (.x 1) (.x 19) 0x10)]

def callRestore : List (Code G) :=
  ldp (.x 29) (.x 30) .sp 0x20 ++ .asm (.ldr (.x 21) .sp 0x10) :: ldp (.x 19) (.x 20) .sp 0 ++
  [.asm (.add .sp .sp 0x30), .asm (.br (.x 30))]

/-- 関数に飛んだ時の状態。 -/
def calling (link : BitVec 64) (s : Host G) : Host G :=
  runCode (callSave ++ callLoad ++ [.bl link]) s

/-- `call_host`。`host` は番地にある関数、`link` は `blr` の戻り先である。 -/
def callHost (host : BitVec 64 → Host G → Host G) (link : BitVec 64) (s : Host G) : Host G :=
  runCode (callSave ++ callLoad ++ [.bl link, .host fun c => host (gpr c 16) c] ++ callStore ++
    callRestore) s

/-! ## 関数に飛ぶまで -/

/-- `call_host` の frame。 -/
def callFrame : FrameLayout where
  regs := [19, 20, 21, 29, 30]
  off i := if i = 19 then 0 else if i = 20 then 8 else if i = 21 then 0x10
    else if i = 29 then 0x20 else 0x28
  bound := by decide
  apart := by decide

/-- `callSave` の後の状態。 -/
structure CallSaved (s s' : Host G) : Prop where
  sp : reg s' none = frameSp s
  x19 : reg s' (some 19) = reg s (some 0)
  x20 : reg s' (some 20) = reg s (some 1)
  x21 : reg s' (some 21) = frameSp s
  x16 : reg s' (some 16) = reg s (some 2)
  others : ∀ i : Fin 31, i ∉ [16, 19, 20, 21, 29] → reg s' (some i) = reg s (some i)
  q : ∀ i, s'.regs (.q i) = s.regs (.q i)
  mem : s'.mem = callFrame.mem s
  guest : s'.guest = s.guest

theorem exec_movFromSp (f : Effect hostModel G) (s : Host G) (i : Fin 31) :
    Asm.exec f s (.mov (.x i) .sp) = wBank.set s (some i) (wBank.get s none) :=
  wBank.move_reg s (some i) none

/-- `callSave` の命令を順に実行した状態。 -/
def callSaved (s : Host G) : Host G :=
  let save (i : Fin 31) (u : Host G) : Host G :=
    WordBank.setWord u (callFrame.addr s i) (reg s (some i))
  let s₁ := save 30 (save 29 (save 21 (save 20 (save 19 (wBank.set s none (frameSp s))))))
  let s₂ := wBank.set s₁ (some 29) (frameSp s + BitVec.ofInt 64 0x20)
  let s₃ := wBank.set (wBank.set s₂ (some 19) (reg s (some 0))) (some 20) (reg s (some 1))
  wBank.set (wBank.set s₃ (some 21) (frameSp s)) (some 16) (reg s (some 2))

theorem runCode_callSave (s : Host G) : runCode callSave s = callSaved s := by
  simp only [runCode, callSave, stp, List.cons_append, List.nil_append, List.foldl_cons,
    List.foldl_nil, Code.exec, exec_addSp, exec_addFromSp, exec_strSp, exec_mov_word,
    exec_movFromSp, WordBank.get_set, wBank_get_setWord, if_true, if_false, reduceCtorEq,
    Option.some.injEq, Fin.reduceEq, callSaved, FrameLayout.addr, frameSp, callFrame, reg,
    Int.reduceAdd, Nat.cast_ofNat, Nat.cast_zero]

theorem callSave_saved (s : Host G) : CallSaved s (runCode callSave s) := by
  rw [runCode_callSave]
  constructor
  case sp => simp [callSaved, reg, wBank_get_setWord, -WordBank.get_setWord]
  case x19 => simp [callSaved, reg, -WordBank.get_setWord]
  case x20 => simp [callSaved, reg, -WordBank.get_setWord]
  case x21 => simp [callSaved, reg, -WordBank.get_setWord]
  case x16 => simp [callSaved, reg, -WordBank.get_setWord]
  case others =>
    intro i hi
    simp only [List.mem_cons, List.not_mem_nil, or_false, not_or] at hi
    simp [callSaved, reg, hi, wBank_get_setWord, -WordBank.get_setWord]
  case q => exact fun i => by simp only [callSaved, WordBank.setWord_regs, set_q]
  case mem =>
    simp only [callSaved, WordBank.setWord_mem, WordBank.set_mem, FrameLayout.mem,
      Machine.storeSlots, callFrame, List.foldl_cons, List.foldl_nil]
  case guest => simp only [callSaved, WordBank.setWord_guest, WordBank.set_guest]

/-! ## guest の register の置き場 -/

/-- `gpr` の `i` 番目の register。31 番目は stack pointer である。 -/
def bankX (m : Mem) (gpr : BitVec 64) (i : Fin 32) : BitVec 64 :=
  BitVec.ofNat 64 (m.loadLE (gpr.toNat + 0x10 * i.val) 8)

/-- `simd` の `i` 番目の register。 -/
def bankQ (m : Mem) (simd : BitVec 64) (i : Fin 32) : BitVec 128 :=
  BitVec.ofNat 128 (m.loadLE (simd.toNat + 0x10 * i.val) 16)

/-- `call_host` の引数と、memory の配置。二つの置き場は折り返さず、互いにも stack の frame とも重ならない。 -/
structure CallPlaced (s : Host G) : Prop where
  gpr : (reg s (some 0)).toNat + 0x200 ≤ 2 ^ 64
  simd : (reg s (some 1)).toNat + 0x200 ≤ 2 ^ 64
  room : 0x30 ≤ (s.regs .sp).toNat
  banks : (reg s (some 0)).toNat + 0x200 ≤ (reg s (some 1)).toNat ∨
    (reg s (some 1)).toNat + 0x200 ≤ (reg s (some 0)).toNat
  gpr_frame : (reg s (some 0)).toNat + 0x200 ≤ (s.regs .sp).toNat - 0x30 ∨
    (s.regs .sp).toNat ≤ (reg s (some 0)).toNat
  simd_frame : (reg s (some 1)).toNat + 0x200 ≤ (s.regs .sp).toNat - 0x30 ∨
    (s.regs .sp).toNat ≤ (reg s (some 1)).toNat

/-- 読み込む register と、その置き場。`x9` には stack pointer を読み込む。 -/
def argQ : List HostReg := [.q 0, .q 1, .q 2, .q 3, .q 4, .q 5, .q 6, .q 7]

def argX : List HostReg := [.x 0, .x 1, .x 2, .x 3, .x 4, .x 5, .x 6, .x 7, .x 8, .x 9]

def argOff : HostReg → Int
  | .x i => if i = 9 then 0x1f0 else (0x10 * i.val : Nat)
  | .q i => (0x10 * i.val : Nat)
  | .sp => 0x1f0

theorem runCode_callLoad (s : Host G) : runCode callLoad s =
    (Machine.loadAll (.x 19) argOff HostReg.bytes argX
      (Machine.loadAll (.x 20) argOff HostReg.bytes argQ s)).move .sp (.x 9) := rfl

section Load

variable {s s' : Host G}

/-- 置き場の番地は折り返さない。 -/
theorem bank_addr {g : BitVec 64} (h : g.toNat + 0x200 ≤ 2 ^ 64) {off : Nat} (hoff : off < 0x200) :
    (g + BitVec.ofInt 64 off).toNat = g.toNat + off := by
  have hadd := toNat_add_ofInt g off (by omega) (by omega)
  omega

/-- `callLoad` の後の状態。 -/
structure CallLoaded (gpr simd : BitVec 64) (s s' : Host G) : Prop where
  x : ∀ i : Fin 31, (hi : i.val ≤ 8) → reg s' (some i) = bankX s.mem gpr ⟨i.val, by omega⟩
  q : ∀ i : Fin 32, i.val ≤ 7 → s'.regs (.q i) = bankQ s.mem simd i
  sp : reg s' none = bankX s.mem gpr 31
  others : ∀ k, k ≠ .sp → k ∉ argQ → k ∉ argX → s'.regs k = s.regs k
  mem : s'.mem = s.mem
  guest : s'.guest = s.guest

/-- 列の register を読み込んだ状態。 -/
def loaded (base : HostReg) (l : List HostReg) (s : Host G) : Host G :=
  { s with regs := Machine.loadedRegs base argOff HostReg.bytes l s }

theorem loaded_of_notMem {base k : HostReg} {l : List HostReg} (hk : k ∉ l) (s : Host G) :
    (loaded base l s).regs k = s.regs k := if_neg hk

theorem loaded_of_mem {base k : HostReg} {l : List HostReg} (hk : k ∈ l) (s : Host G) :
    (loaded base l s).regs k =
      BitVec.ofNat _ (s.mem.loadLE (s.address base (argOff k)) k.bytes) := if_pos hk

/-- 番地の基準にした register から、置き場の値を読む。 -/
theorem loaded_x {i j : Fin 31} {l : List HostReg} {off : Nat} (hi : .x i ∈ l) (s : Host G)
    (hg : (reg s (some j)).toNat + 0x200 ≤ 2 ^ 64) (hoff : argOff (.x i) = off)
    (hlt : off < 0x200) : reg (loaded (.x j) l s) (some i) =
      BitVec.ofNat 64 (s.mem.loadLE ((reg s (some j)).toNat + off) 8) := by
  have haddr : s.address (.x j) off = (reg s (some j)).toNat + off := by
    rw [← bank_addr hg hlt]
    exact wBank.address_reg s (some j) off
  have hval : (reg (loaded (.x j) l s) (some i)).toNat = ((loaded (.x j) l s).regs (.x i)).toNat :=
    wBank.toNat_get _ (some i)
  refine BitVec.eq_of_toNat_eq ?_
  rw [hval, loaded_of_mem hi, BitVec.toNat_ofNat, BitVec.toNat_ofNat, hoff, haddr]
  rfl

theorem callLoad_loaded (hg : (reg s (some 19)).toNat + 0x200 ≤ 2 ^ 64)
    (hv : (reg s (some 20)).toNat + 0x200 ≤ 2 ^ 64) :
    CallLoaded (reg s (some 19)) (reg s (some 20)) s (runCode callLoad s) := by
  have hq : ∀ i : Fin 32, i.val ≤ 7 → .q i ∈ argQ := by decide
  have hx : ∀ i : Fin 31, i.val ≤ 8 → .x i ∈ argX ∧ i ≠ 9 := by decide
  have hqx : ∀ i : Fin 32, .q i ∉ argX := by decide
  have hrun : runCode callLoad s = (loaded (.x 19) argX (loaded (.x 20) argQ s)).move .sp (.x 9) := by
    rw [runCode_callLoad, Machine.loadAll_eq (by decide) (by decide),
      Machine.loadAll_eq (by decide) (by decide)]
    rfl
  have h19 : reg (loaded (.x 20) argQ s) (some 19) = reg s (some 19) :=
    wBank.get_congr (loaded_of_notMem (by decide) s)
  have hbank : ∀ i : Fin 31, .x i ∈ argX → ∀ off : Nat, argOff (.x i) = off → off < 0x200 →
      reg (loaded (.x 19) argX (loaded (.x 20) argQ s)) (some i) =
        BitVec.ofNat 64 (s.mem.loadLE ((reg s (some 19)).toNat + off) 8) := by
    intro i hi off hoff hlt
    rw [loaded_x hi _ (by rwa [h19]) hoff hlt, h19]
    rfl
  rw [hrun]
  generalize hu : loaded (.x 19) argX (loaded (.x 20) argQ s) = u at hbank
  have hmove : u.move .sp (.x 9) = wBank.set u none (reg u (some 9)) := wBank.move_reg u none (some 9)
  have hregs : ∀ k, k ≠ .sp → (wBank.set u none (reg u (some 9))).regs k = u.regs k :=
    fun k hk => wBank.set_regs u none _ hk
  rw [hmove]
  constructor
  case x =>
    intro i hi
    obtain ⟨hmem, h9⟩ := hx i hi
    have hoff : argOff (.x i) = (0x10 * i.val : Nat) := if_neg h9
    refine (wBank.get_congr (i := some i) (hregs _ (by simp))).trans ?_
    exact hbank i hmem _ hoff (by omega)
  case q =>
    intro i hi
    have haddr : s.address (.x 20) (argOff (.q i)) = (reg s (some 20)).toNat + 0x10 * i.val := by
      rw [← bank_addr hv (by omega)]
      exact wBank.address_reg s (some 20) _
    have hload : (wBank.set u none (reg u (some 9))).regs (.q i) =
        BitVec.ofNat _ (s.mem.loadLE (s.address (.x 20) (argOff (.q i))) 16) := by
      rw [hregs (.q i) (by simp), ← hu, loaded_of_notMem (hqx i),
        loaded_of_mem (hq i hi)]
      rfl
    refine hload.trans ?_
    rw [haddr]
    rfl
  case sp =>
    rw [reg, WordBank.get_set, if_pos rfl]
    exact hbank 9 (by decide) 0x1f0 rfl (by decide)
  case others =>
    intro k hsp hargQ hargX
    rw [hregs k hsp, ← hu, loaded_of_notMem hargX, loaded_of_notMem hargQ]
  case mem => rw [WordBank.set_mem, ← hu]; rfl
  case guest => rw [WordBank.set_guest, ← hu]; rfl

end Load

/-! ## 関数から戻ったあと -/

section Store

variable {s s' : Host G}

/-- 書き戻す register。 -/
def resQ : List HostReg := [.q 0, .q 1, .q 2, .q 3]

def resX : List HostReg := [.x 0, .x 1]

theorem runCode_callStore (s : Host G) : runCode callStore s =
    Machine.storeAll (.x 19) argOff HostReg.bytes resX
      (Machine.storeAll (.x 20) argOff HostReg.bytes resQ (s.move .sp (.x 21))) := rfl

/-- 列の register を書いた memory。 -/
def storedMem (base : Fin 31) (l : List HostReg) (s : Host G) : Mem :=
  Machine.storeSlots (fun k => s.address (.x base) (argOff k)) HostReg.bytes
    (fun k => (s.regs k).toNat) l s.mem

/-- 列の register の置き場が、先頭から `size` byte の中に重ならずに並ぶこと。 -/
structure Stored (l : List HostReg) (size : Nat) : Prop where
  nat : ∀ k ∈ l, argOff k = ((argOff k).toNat : Int) ∧ (argOff k).toNat + k.bytes ≤ size
  apart : l.Pairwise fun k j => (argOff k).toNat + k.bytes ≤ (argOff j).toNat

theorem resQ_stored : Stored resQ 0x40 := ⟨by decide, by decide⟩

theorem resX_stored : Stored resX 0x20 := ⟨by decide, by decide⟩

section StoredMem

variable {base : Fin 31} {l : List HostReg} {size : Nat} (h : Stored l size)
  (hg : (reg s (some base)).toNat + 0x200 ≤ 2 ^ 64) (hsize : size ≤ 0x200)

include h hg hsize

theorem Stored.addr {k : HostReg} (hk : k ∈ l) :
    s.address (.x base) (argOff k) = (reg s (some base)).toNat + (argOff k).toNat := by
  obtain ⟨hnat, hle⟩ := h.nat k hk
  have hbytes : 0 < k.bytes := by cases k <;> simp [HostReg.bytes]
  rw [← bank_addr hg (by omega), ← hnat]
  exact wBank.address_reg s (some base) _

/-- 置き場の外は変わらない。 -/
theorem Stored.mem_outside {a : Nat} (ha : a < (reg s (some base)).toNat ∨
    (reg s (some base)).toNat + size ≤ a) : storedMem base l s a = s.mem a := by
  refine Machine.storeSlots_outside fun k hk => ?_
  have hle := (h.nat k hk).2
  rw [h.addr hg hsize hk]
  omega

/-- どの置き場にも、自分の値が入る。 -/
theorem Stored.load {k : HostReg} (hk : k ∈ l) :
    (storedMem base l s).loadLE ((reg s (some base)).toNat + (argOff k).toNat) k.bytes =
      (s.regs k).toNat := by
  have happart : l.Pairwise fun k j =>
      s.address (.x base) (argOff k) + k.bytes ≤ s.address (.x base) (argOff j) ∨
        s.address (.x base) (argOff j) + j.bytes ≤ s.address (.x base) (argOff k) := by
    refine h.apart.imp_of_mem fun hk hj hkj => ?_
    rw [h.addr hg hsize hk, h.addr hg hsize hj]
    omega
  have hload : (storedMem base l s).loadLE (s.address (.x base) (argOff k)) k.bytes =
      (s.regs k).toNat % 256 ^ k.bytes := Machine.loadLE_storeSlots happart hk
  rw [← h.addr hg hsize hk]
  exact hload.trans (low_full k.width_eq _)

end StoredMem

/-- `callStore` の後の状態。 -/
structure CallStored (gpr simd : BitVec 64) (s s' : Host G) : Prop where
  sp : reg s' none = reg s (some 21)
  others : ∀ k, k ≠ .sp → s'.regs k = s.regs k
  x : ∀ i : Fin 31, (hi : i.val ≤ 1) → bankX s'.mem gpr ⟨i.val, by omega⟩ = reg s (some i)
  q : ∀ i : Fin 32, i.val ≤ 3 → bankQ s'.mem simd i = s.regs (.q i)
  mem : ∀ a, a < gpr.toNat ∨ gpr.toNat + 0x20 ≤ a → a < simd.toNat ∨ simd.toNat + 0x40 ≤ a →
    s'.mem a = s.mem a
  guest : s'.guest = s.guest

theorem callStore_stored (hg : (reg s (some 19)).toNat + 0x200 ≤ 2 ^ 64)
    (hv : (reg s (some 20)).toNat + 0x200 ≤ 2 ^ 64)
    (hbanks : (reg s (some 19)).toNat + 0x200 ≤ (reg s (some 20)).toNat ∨
      (reg s (some 20)).toNat + 0x200 ≤ (reg s (some 19)).toNat) :
    CallStored (reg s (some 19)) (reg s (some 20)) s (runCode callStore s) := by
  have hmove : s.move .sp (.x 21) = wBank.set s none (reg s (some 21)) :=
    wBank.move_reg s none (some 21)
  rw [runCode_callStore, hmove, Machine.storeAll_eq, Machine.storeAll_eq]
  have hregs : ∀ k, k ≠ .sp → (wBank.set s none (reg s (some 21))).regs k = s.regs k :=
    fun k hk => wBank.set_regs s none _ hk
  have hx : ∀ j : Fin 31, reg (wBank.set s none (reg s (some 21))) (some j) = reg s (some j) :=
    fun j => wBank.get_congr (i := some j) (hregs _ (by simp))
  have hsp : reg (wBank.set s none (reg s (some 21))) none = reg s (some 21) := by
    rw [reg, WordBank.get_set, if_pos rfl]
  have hmem : (wBank.set s none (reg s (some 21))).mem = s.mem := rfl
  have hguest : (wBank.set s none (reg s (some 21))).guest = s.guest := rfl
  generalize wBank.set s none (reg s (some 21)) = u at hregs hx hsp hmem hguest
  rw [← hx 19] at hg hbanks ⊢
  rw [← hx 20] at hv hbanks ⊢
  -- vector register を書いた後の状態
  have hQ : ∀ a, a < (reg u (some 20)).toNat ∨ (reg u (some 20)).toNat + 0x40 ≤ a →
      storedMem 20 resQ u a = u.mem a :=
    fun a ha => resQ_stored.mem_outside hv (by decide) ha
  have hQload := fun k hk => resQ_stored.load (k := k) hv (by decide) hk
  have hX : ∀ a, a < (reg u (some 19)).toNat ∨ (reg u (some 19)).toNat + 0x20 ≤ a →
      storedMem 19 resX { u with mem := storedMem 20 resQ u } a = storedMem 20 resQ u a :=
    fun a ha => resX_stored.mem_outside (s := { u with mem := storedMem 20 resQ u }) hg
      (by decide) ha
  have hXload := fun k hk => resX_stored.load (s := { u with mem := storedMem 20 resQ u }) (k := k)
    hg (by decide) hk
  constructor
  case sp => exact hsp
  case others => exact hregs
  case x =>
    intro i hi
    have hfacts : .x i ∈ resX ∧ (argOff (.x i)).toNat = 0x10 * i.val := by
      revert i
      decide
    have hload := hXload (.x i) hfacts.1
    rw [hfacts.2] at hload
    refine (congrArg (BitVec.ofNat 64) hload).trans ?_
    rw [BitVec.ofNat_toNat]
    exact (BitVec.setWidth_eq _).trans (hregs (.x i) (by simp))
  case q =>
    intro i hi
    have hfacts : .q i ∈ resQ ∧ (argOff (.q i)).toNat = 0x10 * i.val := by
      revert i
      decide
    have hload := hQload (.q i) hfacts.1
    rw [hfacts.2] at hload
    have hkeep : (storedMem 19 resX { u with mem := storedMem 20 resQ u }).loadLE
        ((reg u (some 20)).toNat + 0x10 * i.val) 16 =
          (storedMem 20 resQ u).loadLE ((reg u (some 20)).toNat + 0x10 * i.val) 16 :=
      Mem.loadLE_eq_iff.mpr fun n hn => hX _ (by omega)
    refine (congrArg (BitVec.ofNat 128) (hkeep.trans hload)).trans ?_
    rw [BitVec.ofNat_toNat]
    exact (BitVec.setWidth_eq _).trans (hregs (.q i) (by simp))
  case mem =>
    intro a hgpr hsimd
    exact (hX a hgpr).trans ((hQ a hsimd).trans (congrFun hmem a))
  case guest => exact hguest

end Store

theorem callRestore_restored (s : Host G) :
    Restored callFrame [29, 30, 21, 19, 20] s (runCode callRestore s) := by
  have hrun : runCode callRestore s =
      let load (off : Int) : BitVec 64 :=
        BitVec.ofNat 64 (s.mem.loadLE (reg s none + BitVec.ofInt 64 off).toNat 8)
      wBank.set (wBank.set (wBank.set (wBank.set (wBank.set (wBank.set s (some 29) (load 0x20))
        (some 30) (load 0x28)) (some 21) (load 0x10)) (some 19) (load 0)) (some 20) (load 8)) none
        (reg s none + BitVec.ofInt 64 0x30) := by
    simp only [runCode, callRestore, ldp, List.cons_append, List.nil_append, List.foldl_cons,
      List.foldl_nil, Code.exec, exec_ldrSp, exec_addSp, exec_br, WordBank.get_set,
      WordBank.set_mem, if_false, reduceCtorEq, reg, Int.reduceAdd]
  rw [hrun]
  constructor
  case sp => simp [reg]
  case saved =>
    intro i hi
    simp only [List.mem_cons, List.not_mem_nil, or_false] at hi
    rcases hi with rfl | rfl | rfl | rfl | rfl <;> simp [reg, callFrame]
  case others =>
    intro k hk
    simp only [List.map_cons, List.map_nil, List.mem_cons, List.not_mem_nil, or_false, not_or] at hk
    obtain ⟨hsp, h29, h30, h21, h19, h20⟩ := hk
    have hset : ∀ (u : Host G) (i : Option (Fin 31)) v, k ≠ wBank.reg i →
        (wBank.set u i v).regs k = u.regs k := fun u i v h => wBank.set_regs u i v h
    rw [hset _ none _ hsp, hset _ (some 20) _ h20, hset _ (some 19) _ h19, hset _ (some 21) _ h21,
      hset _ (some 30) _ h30, hset _ (some 29) _ h29]
  case mem => rfl
  case guest => rfl

/-! ## 呼び出しの全体 -/

section Call

variable {s : Host G} {host : BitVec 64 → Host G → Host G}

/-- 関数に飛んだ時の状態。引数の register と stack pointer は guest のもので、ほかは呼び手のままである。 -/
structure Calling (link : BitVec 64) (s c : Host G) : Prop where
  x : ∀ i : Fin 31, (hi : i.val ≤ 8) →
    reg c (some i) = bankX s.mem (reg s (some 0)) ⟨i.val, by omega⟩
  q : ∀ i : Fin 32, i.val ≤ 7 → c.regs (.q i) = bankQ s.mem (reg s (some 1)) i
  sp : reg c none = bankX s.mem (reg s (some 0)) 31
  target : reg c (some 16) = reg s (some 2)
  lr : reg c (some 30) = link
  mem : ∀ a, a < (s.regs .sp).toNat - 0x30 ∨ (s.regs .sp).toNat ≤ a → c.mem a = s.mem a
  guest : c.guest = s.guest

/-- 関数の保つ register に残したもの。 -/
structure Held (s c : Host G) : Prop where
  x19 : reg c (some 19) = reg s (some 0)
  x20 : reg c (some 20) = reg s (some 1)
  x21 : reg c (some 21) = frameSp s
  x : ∀ i : Fin 31, 22 ≤ i.val → i.val ≤ 28 → reg c (some i) = reg s (some i)
  q : ∀ i : Fin 32, 8 ≤ i.val → c.regs (.q i) = s.regs (.q i)
  mem : c.mem = callFrame.mem s

theorem bankX_congr {m m' : Mem} {g : BitVec 64} (i : Fin 32)
    (h : ∀ a, g.toNat ≤ a → a < g.toNat + 0x200 → m a = m' a) : bankX m g i = bankX m' g i :=
  congrArg (BitVec.ofNat 64) (Mem.loadLE_eq_iff.mpr fun n hn => h _ (by omega) (by omega))

theorem bankQ_congr {m m' : Mem} {g : BitVec 64} (i : Fin 32)
    (h : ∀ a, g.toNat ≤ a → a < g.toNat + 0x200 → m a = m' a) : bankQ m g i = bankQ m' g i :=
  congrArg (BitVec.ofNat 128) (Mem.loadLE_eq_iff.mpr fun n hn => h _ (by omega) (by omega))

theorem calling_spec (link : BitVec 64) (hp : CallPlaced s) :
    Calling link s (calling link s) ∧ Held s (calling link s) := by
  have hrun : calling link s = wBank.set (runCode callLoad (runCode callSave s)) (some 30) link := by
    simp only [calling, runCode, List.foldl_append, List.foldl_cons, List.foldl_nil, Code.exec,
      xBank_set_eq]
  have hs := callSave_saved s
  rw [hrun]
  generalize runCode callSave s = u at hs
  have hl := callLoad_loaded (s := u) (by rw [hs.x19]; exact hp.gpr) (by rw [hs.x20]; exact hp.simd)
  generalize runCode callLoad u = c at hl
  rw [hs.x19, hs.x20] at hl
  have hout : ∀ a, a < (s.regs .sp).toNat - 0x30 ∨ (s.regs .sp).toNat ≤ a → u.mem a = s.mem a :=
    fun a ha => (congrFun hs.mem a).trans (callFrame.mem_outside hp.room ha)
  have hbankX : ∀ i, bankX u.mem (reg s (some 0)) i =
      bankX s.mem (reg s (some 0)) i := by
    intro i
    have hframe := hp.gpr_frame
    exact bankX_congr i fun a h1 h2 => hout a (by omega)
  have hbankQ : ∀ i, bankQ u.mem (reg s (some 1)) i =
      bankQ s.mem (reg s (some 1)) i := by
    intro i
    have hframe := hp.simd_frame
    exact bankQ_congr i fun a h1 h2 => hout a (by omega)
  have hx : ∀ i : Fin 31, i ≠ 30 → reg (wBank.set c (some 30) link) (some i) = reg c (some i) := by
    intro i hi
    rw [reg, WordBank.get_set, if_neg (by simpa using hi)]
    rfl
  have hkeep : ∀ i : Fin 31, 16 ≤ i.val → i ≠ 30 →
      reg (wBank.set c (some 30) link) (some i) = reg u (some i) := by
    intro i hi h30
    refine (hx i h30).trans (wBank.get_congr (hl.others _ (by simp) ?_ ?_))
    · revert i
      decide
    · revert i
      decide
  constructor
  · constructor
    case x =>
      intro i hi
      have h30 : i ≠ 30 := by
        rintro rfl
        exact absurd hi (by decide)
      rw [hx i h30, hl.x i hi, hbankX]
    case q =>
      intro i hi
      exact (set_q c (some 30) link i).trans ((hl.q i hi).trans (hbankQ i))
    case sp =>
      rw [reg, WordBank.get_set, if_neg (by simp)]
      exact hl.sp.trans (hbankX 31)
    case target => rw [hkeep 16 (by decide) (by decide), hs.x16]
    case lr => rw [reg, WordBank.get_set, if_pos rfl]
    case mem =>
      intro a ha
      rw [WordBank.set_mem, hl.mem]
      exact hout a ha
    case guest => rw [WordBank.set_guest, hl.guest, hs.guest]
  · constructor
    case x19 => rw [hkeep 19 (by decide) (by decide), hs.x19]
    case x20 => rw [hkeep 20 (by decide) (by decide), hs.x20]
    case x21 => rw [hkeep 21 (by decide) (by decide), hs.x21]
    case x =>
      intro i h22 h28
      have hne : i ≠ 30 ∧ i ∉ [16, 19, 20, 21, 29] := by
        revert i
        decide
      rw [hkeep i (by omega) hne.1, hs.others i hne.2]
    case q =>
      intro i hi
      have hne : .q i ∉ argQ ∧ .q i ∉ argX := by
        revert i
        decide
      rw [set_q, hl.others (.q i) (by simp) hne.1 hne.2, hs.q]
    case mem => rw [WordBank.set_mem, hl.mem, hs.mem]

/-- `State` の二つの置き場と、host の stack の frame。 -/
def Guarded (s : Host G) (a : Nat) : Prop :=
  ((reg s (some 0)).toNat ≤ a ∧ a < (reg s (some 0)).toNat + 0x200) ∨
  ((reg s (some 1)).toNat ≤ a ∧ a < (reg s (some 1)).toNat + 0x200) ∨
  ((s.regs .sp).toNat - 0x30 ≤ a ∧ a < (s.regs .sp).toNat)

/-- AAPCS64 の関数。呼び手の保つ register と stack pointer を元に戻し、`guarded` の番地を書かない。 -/
structure HostAbi (f : Host G → Host G) (guarded : Nat → Prop) : Prop where
  sp : ∀ c, (f c).regs .sp = c.regs .sp
  x : ∀ c (i : Fin 31), 19 ≤ i.val → i.val ≤ 29 → reg (f c) (some i) = reg c (some i)
  d : ∀ c (i : Fin 32), 8 ≤ i.val → i.val ≤ 15 →
    ((f c).regs (.q i)).toNat % 2 ^ 64 = (c.regs (.q i)).toNat % 2 ^ 64
  mem : ∀ c a, guarded a → (f c).mem a = c.mem a

/--
`call_host` から戻った状態。`r` は関数から戻った時の状態である。呼び手の保つ register は元のままで、`State` には
結果の register だけが書かれる。
-/
structure CalledHost (s r s' : Host G) : Prop where
  x : ∀ i : Fin 31, 19 ≤ i.val → reg s' (some i) = reg s (some i)
  d : ∀ i : Fin 32, 8 ≤ i.val → i.val ≤ 15 →
    (s'.regs (.q i)).toNat % 2 ^ 64 = (s.regs (.q i)).toNat % 2 ^ 64
  sp : s'.regs .sp = s.regs .sp
  resultX : ∀ i : Fin 31, (hi : i.val ≤ 1) →
    bankX s'.mem (reg s (some 0)) ⟨i.val, by omega⟩ = reg r (some i)
  resultQ : ∀ i : Fin 32, i.val ≤ 3 → bankQ s'.mem (reg s (some 1)) i = r.regs (.q i)
  otherX : ∀ i : Fin 32, 2 ≤ i.val →
    bankX s'.mem (reg s (some 0)) i = bankX s.mem (reg s (some 0)) i
  otherQ : ∀ i : Fin 32, 4 ≤ i.val →
    bankQ s'.mem (reg s (some 1)) i = bankQ s.mem (reg s (some 1)) i
  mem : ∀ a, ¬ Guarded s a → s'.mem a = r.mem a
  guest : s'.guest = r.guest

/--
`call_host` は、guest の引数と stack pointer で関数を呼ぶ。戻ると、`State` の `x0`、`x1`、`v0` から `v3` だけが結果に変わり、
`x30` も含めてほかの register は元のままで、呼び手の register と stack pointer は元に戻る。
-/
theorem callHost_switches (link : BitVec 64) (hp : CallPlaced s)
    (hf : HostAbi (host (reg s (some 2))) (Guarded s)) :
    Calling link s (calling link s) ∧
      CalledHost s (host (reg s (some 2)) (calling link s)) (callHost host link s) := by
  obtain ⟨hc, hh⟩ := calling_spec link hp
  refine ⟨hc, ?_⟩
  have hrun : callHost host link s =
      runCode callRestore (runCode callStore (host (reg s (some 2)) (calling link s))) := by
    have htarget : gpr (calling link s) 16 = reg s (some 2) := hc.target
    rw [← htarget]
    simp only [callHost, calling, runCode, List.foldl_append, List.foldl_cons, List.foldl_nil,
      Code.exec]
  rw [hrun]
  generalize calling link s = c at hc hh
  have hsp := hf.sp c
  have hx := hf.x c
  have hd := hf.d c
  have hmem := hf.mem c
  generalize host (reg s (some 2)) c = r at hsp hx hd hmem
  have h19 : reg r (some 19) = reg s (some 0) := (hx 19 (by decide) (by decide)).trans hh.x19
  have h20 : reg r (some 20) = reg s (some 1) := (hx 20 (by decide) (by decide)).trans hh.x20
  have h21 : reg r (some 21) = frameSp s := (hx 21 (by decide) (by decide)).trans hh.x21
  have hst := callStore_stored (s := r) (by rw [h19]; exact hp.gpr) (by rw [h20]; exact hp.simd)
    (by rw [h19, h20]; exact hp.banks)
  rw [h19, h20] at hst
  generalize runCode callStore r = u at hst
  have hre := callRestore_restored u
  generalize runCode callRestore u = s' at hre
  have hroom := hp.room
  -- 退避した所は、関数も `callStore` も書かない
  have hframe : ∀ i ∈ [29, 30, 21, 19, 20],
      u.mem.loadLE (callFrame.addr s i) 8 = (reg s (some i)).toNat := by
    intro i hi
    have hregs : i ∈ callFrame.regs := by
      revert i
      decide
    rw [← callFrame.mem_word hroom hregs]
    refine Mem.loadLE_eq_iff.mpr fun n hn => ?_
    have hbound := callFrame.bound i
    have haddr := callFrame.addr_eq hroom i
    have hgpr := hp.gpr_frame
    have hsimd := hp.simd_frame
    rw [hst.mem _ (by omega) (by omega), hmem _ (.inr (.inr (by omega))), hh.mem]
  obtain ⟨hspBack, hback⟩ := hre.back (hst.sp.trans h21) hframe
  have hother : ∀ k, k ∉ HostReg.sp :: [29, 30, 21, 19, 20].map HostReg.x →
      s'.regs k = r.regs k := by
    intro k hk
    refine (hre.others k hk).trans (hst.others k fun heq => hk ?_)
    rw [heq]
    exact List.mem_cons_self ..
  have hbanks := hp.banks
  have hout : ∀ a, a < (s.regs .sp).toNat - 0x30 ∨ (s.regs .sp).toNat ≤ a → c.mem a = s.mem a :=
    fun a ha => hc.mem a ha
  constructor
  case x =>
    intro i hi
    by_cases hmem : i ∈ [29, 30, 21, 19, 20]
    · exact hback i hmem
    · have hrange : 22 ≤ i.val ∧ i.val ≤ 28 ∧
          .x i ∉ HostReg.sp :: [29, 30, 21, 19, 20].map HostReg.x := by
        revert i
        decide
      obtain ⟨h22, h28, hnot⟩ := hrange
      refine (wBank.get_congr (i := some i) (hother (.x i) hnot)).trans ?_
      exact (hx i hi (by omega)).trans (hh.x i h22 h28)
  case d =>
    intro i h8 h15
    rw [hother (.q i) (by simp), hd i h8 h15, hh.q i h8]
  case sp => exact sp_of_reg hspBack
  case resultX => exact fun i hi => by rw [hre.mem, hst.x i hi]
  case resultQ => exact fun i hi => by rw [hre.mem, hst.q i hi]
  case otherX =>
    intro i hi
    refine congrArg (BitVec.ofNat 64) (Mem.loadLE_eq_iff.mpr fun n hn => ?_)
    have hframe := hp.gpr_frame
    rw [hre.mem, hst.mem _ (by omega) (by omega), hmem _ (.inl (by omega)), hout _ (by omega)]
  case otherQ =>
    intro i hi
    refine congrArg (BitVec.ofNat 128) (Mem.loadLE_eq_iff.mpr fun n hn => ?_)
    have hframe := hp.simd_frame
    rw [hre.mem, hst.mem _ (by omega) (by omega), hmem _ (.inr (.inl (by omega))),
      hout _ (by omega)]
  case mem =>
    intro a ha
    unfold Guarded at ha
    rw [hre.mem]
    exact hst.mem a (by omega) (by omega)
  case guest => rw [hre.guest, hst.guest]

/-- `State` が 0x1000 と 0x2000、stack が 0x800 から下にあり、`0x5000` の関数を呼ぶ状態。 -/
def sampleCaller : Host Unit where
  regs
    | .x i => if i = 0 then (0x1000 : BitVec 64) else if i = 1 then (0x2000 : BitVec 64)
      else if i = 2 then (0x5000 : BitVec 64) else (7 : BitVec 64)
    | .sp => (0x800 : BitVec 64)
    | .q _ => (0 : BitVec 128)
  mem := fun a => if a = 0x1010 then 3 else 0
  guest := ()

/-- `x1` を `x0` に返す関数。 -/
def sampleHostFn (_ : BitVec 64) (c : Host Unit) : Host Unit := xBank.set c 0 (gpr c 1)

theorem sampleHostFn_abi (addr : BitVec 64) (guarded : Nat → Prop) :
    HostAbi (sampleHostFn addr) guarded where
  sp := fun c => xBank.set_regs c 0 _ (k := .sp) (by simp)
  x := fun c i h19 _ => by
    have hne : i ≠ 0 := by
      rintro rfl
      exact absurd h19 (by decide)
    rw [sampleHostFn, reg, xBank_set_eq, WordBank.get_set, if_neg (by simpa using hne), reg]
  d := fun c i _ _ => by rw [sampleHostFn, xBank_set_eq, set_q]
  mem := fun _ _ _ => rfl

theorem sampleCaller_placed : CallPlaced sampleCaller := by
  constructor <;> decide

/-- guest の `x1` を渡し、guest の `x0` に受け取る。 -/
theorem callHost_switches_sample :
    bankX (callHost sampleHostFn 0x9000 sampleCaller).mem (reg sampleCaller (some 0)) 0 = 3 ∧
      (callHost sampleHostFn 0x9000 sampleCaller).regs .sp = sampleCaller.regs .sp := by
  obtain ⟨hc, hs'⟩ := callHost_switches (0x9000 : BitVec 64) sampleCaller_placed
    (sampleHostFn_abi _ (Guarded sampleCaller))
  have hguest : bankX sampleCaller.mem (reg sampleCaller (some 0)) 1 = 3 := by decide
  have hresult : reg (sampleHostFn (reg sampleCaller (some 2)) (calling 0x9000 sampleCaller))
      (some 0) = reg (calling 0x9000 sampleCaller) (some 1) := by
    rw [sampleHostFn, reg, xBank_set_eq, WordBank.get_set, if_pos rfl]
    rfl
  exact ⟨(hs'.resultX 0 (by decide)).trans (hresult.trans ((hc.x 1 (by decide)).trans hguest)),
    hs'.sp⟩

end Call

end Entry.AArch64

end AetherVM
