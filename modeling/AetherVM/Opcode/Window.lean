import AetherVM.Opcode.Engine

/-!
# `prefetch` は buffer の外を読むか（`src/OpcodeEngine.cpp` の `OpcodeEngine::prefetch`）

`prefetch` は buffer の終わりに関わらず、いまの位置から 4 byte（AArch64）か 16 byte（x86）の窓を decoder に渡す。
x86 の命令は 15 byte までなので、最後の命令の窓はいつも buffer の外に出る。AArch64 では、buffer の長さが 4 の
倍数なら窓も命令も buffer に収まり、そうでなければ最後の窓が外に出る。
-/

namespace AetherVM

open Infra

/-- decoder に渡す窓の長さ（`insnsize`）。 -/
def insnsize (arch : ArchType) : Nat := if arch = .arm64 then 4 else 16

namespace Toolchain

variable {μ : Type} (tc : Toolchain μ)

/-- 命令を数える `prefetch` の loop。 -/
def countLoop (arch : ArchType) (mem : Nat → UInt8) (fin : Nat) :
    Nat → Nat → Nat → Globals μ × OpcodeEngine → Except Fault (Nat × (Globals μ × OpcodeEngine))
  | 0, _, count, s => .ok (count, s)
  | fuel + 1, ptr, count, s =>
    if ptr < fin then do
      let decoded := tc.decodeAt arch mem ptr
      let length := decoded.inst.bytes.length
      let s ← tc.prefetchOne arch decoded ((List.range length).map fun i => mem (ptr + i)) s
      countLoop arch mem fin fuel (ptr + length) (count + 1) s
    else .ok (count, s)

/-- `OpcodeEngine::prefetch`。buffer は `start` から `size` byte で、命令の数も返す。 -/
def prefetchCount (arch : ArchType) (mem : Nat → UInt8) (start size : Nat)
    (s : Globals μ × OpcodeEngine) : Except Fault (Nat × (Globals μ × OpcodeEngine)) :=
  tc.countLoop arch mem (start + size) size start 0 s

/-- loop が decode する位置と、その命令の長さ。 -/
def steps (arch : ArchType) (mem : Nat → UInt8) (fin : Nat) : Nat → Nat → List (Nat × Nat)
  | 0, _ => []
  | fuel + 1, ptr =>
    if ptr < fin then
      let length := (tc.decodeAt arch mem ptr).inst.bytes.length
      (ptr, length) :: steps arch mem fin fuel (ptr + length)
    else []

/--
`prefetch` が buffer だけで決まること。buffer の後ろの memory を取り替えても同じ数を返して同じ handler を作り、decoder に
渡す窓は buffer を出ず、命令の長さの和は buffer の長さである。
-/
structure BufferOnly (arch : ArchType) (mem : Nat → UInt8) (start size : Nat) : Prop where
  same : ∀ mem', (∀ i, start ≤ i → i < start + size → mem' i = mem i) → ∀ s,
    tc.prefetchCount arch mem' start size s = tc.prefetchCount arch mem start size s
  window : ∀ p ∈ tc.steps arch mem (start + size) size start, p.1 + insnsize arch ≤ start + size
  consumed : ((tc.steps arch mem (start + size) size start).map Prod.snd).sum = size

/-- 窓から decode した命令は、AArch64 では 4 byte、x86 では 15 byte までで、decode できなければ空である。 -/
structure ArchDecodes : Prop where
  arm64 : ∀ bytes, bytes.length = 4 → (tc.decode .arm64 bytes).inst.bytes.length = 0 ∨
    (tc.decode .arm64 bytes).inst.bytes.length = 4
  x86_64 : ∀ bytes, bytes.length = 16 → (tc.decode .x86_64 bytes).inst.bytes.length ≤ 15

variable {tc} {arch : ArchType} {mem mem' : Nat → UInt8}

/-! ## 命令を数えない `prefetch` との関係 -/

theorem countLoop_eq (fin : Nat) : ∀ (fuel ptr count : Nat) (s : Globals μ × OpcodeEngine),
    tc.countLoop arch mem fin fuel ptr count s
      = (fun s => (count + (tc.steps arch mem fin fuel ptr).length, s)) <$>
          tc.prefetchLoop arch mem fin fuel ptr s
  | 0, ptr, count, s => rfl
  | fuel + 1, ptr, count, s => by
    rw [countLoop, steps, prefetchLoop]
    split
    · simp only [List.length_cons, map_bind]
      refine congrArg (_ >>= ·) (funext fun s' => ?_)
      rw [countLoop_eq fin fuel, Nat.add_right_comm count 1, Nat.add_assoc]
    · rfl

/-- 数は decode した命令の数で、大域変数と handler は `prefetch` のものである。 -/
theorem prefetchCount_eq (start size : Nat) (s : Globals μ × OpcodeEngine) :
    tc.prefetchCount arch mem start size s
      = (fun s => ((tc.steps arch mem (start + size) size start).length, s)) <$>
          tc.prefetch arch mem start (start + size) s := by
  rw [prefetchCount, countLoop_eq, prefetch, Nat.add_sub_cancel_left, Nat.zero_add]

/-! ## 一つの命令 -/

/-- 窓の中の byte が同じなら、同じ命令になる。 -/
theorem decodeAt_congr {ptr : Nat}
    (h : ∀ i < insnsize arch, mem' (ptr + i) = mem (ptr + i)) :
    tc.decodeAt arch mem' ptr = tc.decodeAt arch mem ptr := by
  have hmap : ∀ n ≤ insnsize arch, (List.range n).map (fun i => mem' (ptr + i))
      = (List.range n).map fun i => mem (ptr + i) := fun n hn =>
    List.map_congr_left fun i hi => h i (Nat.lt_of_lt_of_le (List.mem_range.mp hi) hn)
  have hshort : (if arch = .arm64 then 4 else 1) ≤ insnsize arch := by
    unfold insnsize
    split <;> decide
  have hwindow := hmap _ (Nat.le_refl _)
  rw [insnsize] at hwindow
  simp only [decodeAt, hwindow, hmap _ hshort]

theorem decodeAt_length_arm64 (h : tc.ArchDecodes) (mem : Nat → UInt8) (ptr : Nat) :
    (tc.decodeAt .arm64 mem ptr).inst.bytes.length = 4 := by
  simp only [decodeAt, if_true]
  split
  · simp
  · next hne => exact (h.arm64 _ (by simp)).resolve_left hne

theorem decodeAt_length_x86 (h : tc.ArchDecodes) (mem : Nat → UInt8) (ptr : Nat) :
    1 ≤ (tc.decodeAt .x86_64 mem ptr).inst.bytes.length ∧
      (tc.decodeAt .x86_64 mem ptr).inst.bytes.length ≤ 15 := by
  simp only [decodeAt, reduceCtorEq, if_false]
  split
  · simp
  · next hne => exact ⟨Nat.one_le_iff_ne_zero.mpr hne, h.x86_64 _ (by simp)⟩

/-! ## 窓が外に出る buffer -/

/-- x86 では、空でない buffer の最後の窓は外に出る。 -/
theorem exists_window_x86 (h : tc.ArchDecodes) (mem : Nat → UInt8) (fin : Nat) : ∀ (fuel ptr : Nat),
    ptr < fin → fin - ptr ≤ fuel → ∃ p ∈ tc.steps .x86_64 mem fin fuel ptr, fin < p.1 + 16
  | 0, ptr, hlt, hfuel => by omega
  | fuel + 1, ptr, hlt, hfuel => by
    obtain ⟨hpos, hle⟩ := decodeAt_length_x86 h mem ptr
    rw [steps, if_pos hlt]
    by_cases hout : fin < ptr + 16
    · exact ⟨_, List.mem_cons_self .., hout⟩
    · obtain ⟨p, hp, hwindow⟩ := exists_window_x86 h mem fin fuel
        (ptr + (tc.decodeAt .x86_64 mem ptr).inst.bytes.length) (by omega) (by omega)
      exact ⟨p, List.mem_cons_of_mem _ hp, hwindow⟩

/-- AArch64 では、長さが 4 の倍数でない buffer の最後の窓は外に出る。 -/
theorem exists_window_arm64 (h : tc.ArchDecodes) (mem : Nat → UInt8) (fin : Nat) :
    ∀ (fuel ptr : Nat), ptr < fin → (fin - ptr) % 4 ≠ 0 → fin - ptr ≤ fuel →
    ∃ p ∈ tc.steps .arm64 mem fin fuel ptr, fin < p.1 + 4
  | 0, ptr, hlt, _, hfuel => by omega
  | fuel + 1, ptr, hlt, hmod, hfuel => by
    rw [steps, if_pos hlt, decodeAt_length_arm64 h]
    by_cases hout : fin < ptr + 4
    · exact ⟨_, List.mem_cons_self .., hout⟩
    · obtain ⟨p, hp, hwindow⟩ := exists_window_arm64 h mem fin fuel (ptr + 4) (by omega)
        (by omega) (by omega)
      exact ⟨p, List.mem_cons_of_mem _ hp, hwindow⟩

/-! ## 窓が収まる buffer -/

/-- AArch64 の長さが 4 の倍数の buffer では、窓も命令も収まる。 -/
theorem steps_aligned (h : tc.ArchDecodes) (mem : Nat → UInt8) (fin : Nat) : ∀ (fuel ptr : Nat),
    ptr ≤ fin → (fin - ptr) % 4 = 0 → fin - ptr ≤ fuel →
    (∀ p ∈ tc.steps .arm64 mem fin fuel ptr, p.1 + 4 ≤ fin) ∧
      ((tc.steps .arm64 mem fin fuel ptr).map Prod.snd).sum = fin - ptr
  | 0, ptr, _, _, hfuel => by
    refine ⟨fun p hp => absurd hp List.not_mem_nil, ?_⟩
    change 0 = _
    omega
  | fuel + 1, ptr, hle, hmod, hfuel => by
    rw [steps]
    split
    · next hlt =>
      rw [decodeAt_length_arm64 h]
      obtain ⟨hwindow, hsum⟩ := steps_aligned h mem fin fuel (ptr + 4) (by omega) (by omega)
        (by omega)
      refine ⟨fun p hp => ?_, ?_⟩
      · rcases List.mem_cons.mp hp with rfl | hp
        · change ptr + 4 ≤ fin
          omega
        · exact hwindow p hp
      · rw [List.map_cons, List.sum_cons, hsum]
        omega
    · refine ⟨fun p hp => absurd hp List.not_mem_nil, ?_⟩
      change 0 = _
      omega

/-- そのとき、buffer の後ろの memory は結果に関わらない。 -/
theorem countLoop_aligned (h : tc.ArchDecodes) (fin start : Nat)
    (hmem : ∀ i, start ≤ i → i < fin → mem' i = mem i) : ∀ (fuel ptr count : Nat)
    (s : Globals μ × OpcodeEngine), start ≤ ptr → ptr ≤ fin → (fin - ptr) % 4 = 0 →
    tc.countLoop .arm64 mem' fin fuel ptr count s = tc.countLoop .arm64 mem fin fuel ptr count s
  | 0, ptr, count, s, _, _, _ => rfl
  | fuel + 1, ptr, count, s, hstart, hle, hmod => by
    rw [countLoop, countLoop]
    split
    · next hlt =>
      have hbyte : ∀ i < 4, mem' (ptr + i) = mem (ptr + i) := fun i hi =>
        hmem (ptr + i) (by omega) (by omega)
      have hopcode : (List.range 4).map (fun i => mem' (ptr + i))
          = (List.range 4).map fun i => mem (ptr + i) :=
        List.map_congr_left fun i hi => hbyte i (List.mem_range.mp hi)
      have hdecode : tc.decodeAt .arm64 mem' ptr = tc.decodeAt .arm64 mem ptr :=
        decodeAt_congr hbyte
      simp only [hdecode, decodeAt_length_arm64 h, hopcode]
      refine congrArg (_ >>= ·) (funext fun s' => ?_)
      exact countLoop_aligned h fin start hmem fuel (ptr + 4) (count + 1) s' (by omega) (by omega)
        (by omega)
    · rfl

/-! ## buffer だけで決まる条件 -/

/-- `prefetch` が buffer だけで決まるのは、buffer が空か、AArch64 で長さが 4 の倍数のときに限る。 -/
theorem prefetch_bufferOnly_iff (h : tc.ArchDecodes) (arch : ArchType) (mem : Nat → UInt8)
    (start size : Nat) :
    tc.BufferOnly arch mem start size ↔ size = 0 ∨ arch = .arm64 ∧ size % 4 = 0 := by
  constructor
  · intro hb
    by_cases hzero : size = 0
    · exact .inl hzero
    cases arch with
    | x86_64 =>
      obtain ⟨p, hp, hout⟩ := exists_window_x86 h mem (start + size) size start (by omega)
        (by omega)
      have hin : p.1 + 16 ≤ start + size := hb.window p hp
      omega
    | arm64 =>
      refine .inr ⟨rfl, ?_⟩
      by_contra hmod
      obtain ⟨p, hp, hout⟩ := exists_window_arm64 h mem (start + size) size start (by omega)
        (by rwa [Nat.add_sub_cancel_left]) (by omega)
      have hin : p.1 + 4 ≤ start + size := hb.window p hp
      omega
  · rintro (rfl | ⟨rfl, hmod⟩)
    · exact ⟨fun _ _ _ => rfl, fun p hp => absurd hp List.not_mem_nil, rfl⟩
    · obtain ⟨hwindow, hsum⟩ := steps_aligned h mem (start + size) size start (by omega)
        (by rwa [Nat.add_sub_cancel_left]) (by omega)
      refine ⟨fun mem' hmem s => ?_, hwindow, by rw [hsum, Nat.add_sub_cancel_left]⟩
      exact countLoop_aligned h (start + size) start hmem size start 0 s (Nat.le_refl _) (by omega)
        (by rwa [Nat.add_sub_cancel_left])

/-- x86 では `SYSCALL` だけを、AArch64 ではどの 4 byte も decode する環境。 -/
def syscallToolchain : Toolchain Unit where
  decode := fun arch bytes =>
    match arch with
    | .arm64 => ⟨⟨[], bytes.take 4, []⟩, false⟩
    | .x86_64 => ⟨⟨[], if bytes.take 2 = [0x0F, 0x05] then [0x0F, 0x05] else [], []⟩, false⟩
  disassemble := fun _ _ => (0, ())
  hasSP := fun _ => false
  nativeCode := fun _ _ opcode => opcode
  hash := fun _ => 0
  tables := ⟨[], []⟩
  isPointerArg := fun _ _ _ => false
  loadRegoffs := fun _ _ => none
  pageBase := fun _ => 0
  pageSize := 0x1000
  abortImpl := 0x10

theorem syscallToolchain_archDecodes : syscallToolchain.ArchDecodes where
  arm64 := fun bytes hlen => .inr (by simp [syscallToolchain, hlen])
  x86_64 := by
    intro bytes _
    simp only [syscallToolchain]
    split
    · decide
    · decide

/-- `NOP` を二つ並べた 8 byte。 -/
theorem syscallToolchain_bufferOnly : syscallToolchain.BufferOnly .arm64
    (fun i => [0x1F, 0x20, 0x03, 0xD5].getD (i % 4) 0) 0 8 :=
  (prefetch_bufferOnly_iff syscallToolchain_archDecodes .arm64 _ 0 8).mpr (.inr ⟨rfl, rfl⟩)

/--
1 byte の buffer `0F` の後ろに `05` があれば 2 byte の命令の handler を、`00` があれば 1 byte の handler を作る。
-/
theorem syscallToolchain_not_bufferOnly : ∃ r r',
    syscallToolchain.prefetchCount .x86_64 (fun i => [0x0F, 0x05].getD i 0) 0 1
        (Globals.empty, fun _ => []) = .ok r ∧
      syscallToolchain.prefetchCount .x86_64 (fun i => [0x0F].getD i 0) 0 1
        (Globals.empty, fun _ => []) = .ok r' ∧
      (r.2.2 .w2).map (fun x => x.handler.opcode) = [[0x0F, 0x05]] ∧ r.2.2 .w1 = [] ∧
      (r'.2.2 .w1).map (fun x => x.handler.opcode) = [[0x0F]] ∧ r'.2.2 .w2 = [] ∧
      syscallToolchain.steps .x86_64 (fun i => [0x0F, 0x05].getD i 0) 1 1 0 = [(0, 2)] ∧
      ¬ syscallToolchain.BufferOnly .x86_64 (fun i => [0x0F, 0x05].getD i 0) 0 1 := by
  refine ⟨_, _, rfl, rfl, rfl, rfl, rfl, rfl, rfl, fun h => ?_⟩
  have hwindow : 0 + insnsize .x86_64 ≤ 0 + 1 := h.window (0, 2) (List.mem_singleton.mpr rfl)
  exact absurd hwindow (by decide)

end Toolchain

end AetherVM
