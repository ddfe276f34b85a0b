import Mathlib.Data.List.Forall2
import AetherVM.Infra.Refine
import AetherVM.Operand.Agree

/-!
# 共有の operand の値

handler の引数は、同じ ID を持つ最初の operand を指す。したがって共有が値を変えないのは、同じ ID の
operand がどの CPU state でも同じ値になるときに限る。ID に入らない field（幅、名前の 9 byte 目より後など）まで
一致していれば（`IdsAgree`）、値は等しい。
-/

namespace AetherVM.RemillEnv

open Infra

variable {env : RemillEnv}

/-- 引数の指す共有の operand が、どの CPU state でも operand 自身と同じ値になること。 -/
def Shares (env : RemillEnv) (t : OperandTable) (arg : RemillOperand × Bool)
    (info : OperandInfo) : Prop :=
  ∃ shared, t.items[info.index]? = some shared ∧
    ∀ st, liftOperand env.regoffs st shared info.pointer = env.ownLift st arg

/-- できたすべての handler のすべての引数について、共有が値を変えないこと。 -/
def Sound (env : RemillEnv) (insts : List (Bytes × RemillInstruction)) (t : OperandTable)
    (handlers : List (Option OpcodeHandler)) : Prop :=
  List.Forall₂ (fun p handler => ∀ h, handler = some h →
    List.Forall₂ (env.Shares t) (env.arguments p.2) h.args) insts handlers

/-- 命令の列から登録される operand。実装の無い命令のものは入らない。 -/
def occurrences (env : RemillEnv) (insts : List (Bytes × RemillInstruction)) :
    List (RemillOperand × Bool) :=
  insts.flatMap fun p => if (env.findHandler p.2.function).isSome then env.arguments p.2 else []

/-- 同じ ID の operand は、どの CPU state でも同じ値になる。 -/
def SameId (env : RemillEnv) (insts : List (Bytes × RemillInstruction)) : Prop :=
  ∀ a ∈ env.occurrences insts, ∀ b ∈ env.occurrences insts, env.id a = env.id b →
    ∀ st, env.ownLift st a = env.ownLift st b

/-- 同じ ID の operand は、値に関わる field で一致する。 -/
def IdsAgree (env : RemillEnv) (insts : List (Bytes × RemillInstruction)) : Prop :=
  ∀ a ∈ env.occurrences insts, ∀ b ∈ env.occurrences insts, env.id a = env.id b →
    RemillOperand.Agrees env.regoffs a b

/-- 引数の列が、table の登録どおりであること。 -/
def Registered (env : RemillEnv) (t : OperandTable) :
    List (RemillOperand × Bool) → List OperandInfo → Prop :=
  List.Forall₂ fun arg info => t.map.lookup (env.id arg) = some info

/-- 登録は、table が伸びても変わらない。 -/
theorem Registered.mono {t t' : OperandTable} (h : t.Extends t')
    {args : List (RemillOperand × Bool)} {infos : List OperandInfo}
    (hr : env.Registered t args infos) : env.Registered t' args infos :=
  List.Forall₂.imp (fun _ _ hl => h.lookup hl) hr

/-- operand の loop の一回分と全体。 -/
theorem initArgs_spec : ∀ {args seen : List (RemillOperand × Bool)} {t t' : OperandTable}
    {infos : List OperandInfo}, env.initArgs args t = .ok (t', infos) →
    t.Holds (seen.map env.request) →
    t.Extends t' ∧ env.Registered t' args infos ∧ t'.Holds ((seen ++ args).map env.request)
  | [], seen, t, t', infos, h, hs => by
    cases h
    rw [List.append_nil]
    exact ⟨.refl _, .nil, hs⟩
  | arg :: args, seen, t, t', infos, h, hs => by
    obtain ⟨⟨t₁, info⟩, h1, h⟩ := ok_of_bind_eq_ok h
    obtain ⟨⟨t₂, rest⟩, h2, h⟩ := ok_of_bind_eq_ok h
    cases h
    obtain ⟨hext, hlookup⟩ := Interner.intern_extends h1
    have hs₁ : t₁.Holds ((seen ++ [arg]).map env.request) := by
      rw [List.map_append]
      exact Interner.intern_holds hs h1
    obtain ⟨hext', hreg, hs'⟩ := initArgs_spec h2 hs₁
    refine ⟨hext.trans hext', .cons (hext'.lookup hlookup) hreg, ?_⟩
    rw [List.append_assoc] at hs'
    exact hs'

theorem occurrences_cons (p : Bytes × RemillInstruction)
    (insts : List (Bytes × RemillInstruction)) :
    env.occurrences (p :: insts) = env.occurrences [p] ++ env.occurrences insts := by
  simp [occurrences]

/-- 実装のある命令だけが handler になり、その引数は登録どおりになる。 -/
def Built (env : RemillEnv) (t : OperandTable) (p : Bytes × RemillInstruction) :
    Option OpcodeHandler → Prop
  | none => env.occurrences [p] = []
  | some h => env.occurrences [p] = env.arguments p.2 ∧
      env.Registered t (env.arguments p.2) h.args

theorem Built.mono {t t' : OperandTable} (h : t.Extends t') {p : Bytes × RemillInstruction}
    {handler : Option OpcodeHandler} (hb : env.Built t p handler) : env.Built t' p handler := by
  cases handler with
  | none => exact hb
  | some handler => exact ⟨hb.1, hb.2.mono h⟩

theorem initRemill_spec {opcode : Bytes} {inst : RemillInstruction} {t t' : OperandTable}
    {seen : List (RemillOperand × Bool)} {handler : Option OpcodeHandler}
    (h : env.initRemill opcode inst t = .ok (t', handler)) (hs : t.Holds (seen.map env.request)) :
    t.Extends t' ∧ env.Built t' (opcode, inst) handler ∧
      t'.Holds ((seen ++ env.occurrences [(opcode, inst)]).map env.request) := by
  unfold initRemill at h
  split at h
  · next hnone =>
    cases h
    have hocc : env.occurrences [(opcode, inst)] = [] := by simp [occurrences, hnone]
    rw [hocc, List.append_nil]
    exact ⟨.refl _, hocc, hs⟩
  · next found hfound =>
    obtain ⟨⟨t₁, args⟩, hargs, h⟩ := ok_of_bind_eq_ok h
    cases h
    have hocc : env.occurrences [(opcode, inst)] = env.arguments inst := by
      simp [occurrences, hfound]
    obtain ⟨hext, hreg, hs'⟩ := initArgs_spec hargs hs
    rw [hocc]
    exact ⟨hext, ⟨hocc, hreg⟩, hs'⟩

/-- 列の全体。table は登録された operand をすべて反映し、handler はどれも登録どおりである。 -/
theorem initRemills_spec : ∀ {insts : List (Bytes × RemillInstruction)} {t t' : OperandTable}
    {seen : List (RemillOperand × Bool)} {handlers : List (Option OpcodeHandler)},
    env.initRemills insts t = .ok (t', handlers) → t.Holds (seen.map env.request) →
    t.Extends t' ∧ List.Forall₂ (env.Built t') insts handlers ∧
      t'.Holds ((seen ++ env.occurrences insts).map env.request)
  | [], t, t', seen, handlers, h, hs => by
    cases h
    refine ⟨.refl _, .nil, ?_⟩
    show t.Holds ((seen ++ []).map env.request)
    rw [List.append_nil]
    exact hs
  | (opcode, inst) :: insts, t, t', seen, handlers, h, hs => by
    obtain ⟨⟨t₁, handler⟩, h1, h⟩ := ok_of_bind_eq_ok h
    obtain ⟨⟨t₂, rest⟩, h2, h⟩ := ok_of_bind_eq_ok h
    cases h
    obtain ⟨hext, hbuilt, hs₁⟩ := initRemill_spec h1 hs
    obtain ⟨hext', hrest, hs'⟩ := initRemills_spec h2 hs₁
    refine ⟨hext.trans hext', .cons (hbuilt.mono hext') hrest, ?_⟩
    rw [occurrences_cons, ← List.append_assoc]
    exact hs'

/-! ## 共有が値を変えないこと -/

theorem exists_of_forall₂ {α β : Type} {r s : α → β → Prop} : ∀ {as : List α} {bs : List β},
    List.Forall₂ r as bs → List.Forall₂ s as bs → ∀ {a : α}, a ∈ as → ∃ b, r a b ∧ s a b
  | _, _, .cons hr hrs, .cons hs hss, a, ha => by
    rcases List.mem_cons.mp ha with rfl | ha
    · exact ⟨_, hr, hs⟩
    · exact exists_of_forall₂ hrs hss ha

section

variable {insts : List (Bytes × RemillInstruction)} {t : OperandTable}
  {handlers : List (Option OpcodeHandler)}

/-- 登録された引数は、同じ ID を持つ operand のどれかを、その pointer の flag で指す。 -/
theorem lookup_origin (hs : t.Holds ((env.occurrences insts).map env.request))
    {arg : RemillOperand × Bool} {info : OperandInfo}
    (hl : t.map.lookup (env.id arg) = some info) :
    ∃ b ∈ env.occurrences insts, env.id b = env.id arg ∧ ∃ n op, t.items[n]? = some op ∧
      b.1.initOffsets env.regoffs = .ok op ∧ info = ⟨n % 2 ^ 31, b.2⟩ := by
  obtain ⟨r, hr, hkey, n, op, -, hitem, hn, hinfo⟩ := hs.value hl
  obtain ⟨b, hb, rfl⟩ := List.mem_map.mp hr
  exact ⟨b, hb, hkey, n, op, hn, hitem, hinfo⟩

/-- table の大きさは、異なる ID の個数である。 -/
theorem length_items (hs : t.Holds ((env.occurrences insts).map env.request)) :
    t.items.length = ((env.occurrences insts).map env.id).eraseDups.length := by
  rw [hs.length, hs.keys, List.map_map]
  rfl

theorem shares_of_sameId (hs : t.Holds ((env.occurrences insts).map env.request))
    (hlen : ((env.occurrences insts).map env.id).eraseDups.length ≤ 2 ^ 31)
    (hsame : env.SameId insts) {arg : RemillOperand × Bool} (harg : arg ∈ env.occurrences insts)
    {info : OperandInfo} (hl : t.map.lookup (env.id arg) = some info) : env.Shares t arg info := by
  obtain ⟨b, hb, hid, n, op, hn, hop, rfl⟩ := lookup_origin hs hl
  have hlt : n < t.items.length := (List.getElem?_eq_some_iff.mp hn).1
  have hmod : n % 2 ^ 31 = n := Nat.mod_eq_of_lt (by rw [length_items hs] at hlt; omega)
  refine ⟨op, by rw [hmod]; exact hn, fun st => ?_⟩
  rw [← hsame b hb arg harg hid st, ownLift, hop]
  rfl

theorem mem_occurrences {p : Bytes × RemillInstruction} (hp : p ∈ insts)
    {arg : RemillOperand × Bool} (harg : arg ∈ env.occurrences [p]) :
    arg ∈ env.occurrences insts := by
  simp only [occurrences, List.flatMap_cons, List.flatMap_nil, List.append_nil] at harg
  exact List.mem_flatMap.mpr ⟨p, hp, harg⟩

theorem sound_of_sameId (hs : t.Holds ((env.occurrences insts).map env.request))
    (hlen : ((env.occurrences insts).map env.id).eraseDups.length ≤ 2 ^ 31)
    (hsame : env.SameId insts) (hbuilt : List.Forall₂ (env.Built t) insts handlers) :
    env.Sound insts t handlers := by
  have hmem := (List.forall₂_and_left _ _).mpr ⟨fun p (hp : p ∈ insts) => hp, hbuilt⟩
  refine hmem.imp fun p handler hb h hh => ?_
  subst hh
  obtain ⟨hp, hocc, hreg⟩ := hb
  have hargs := (List.forall₂_and_left _ _).mpr
    ⟨fun arg (harg : arg ∈ env.arguments p.2) => harg, hreg⟩
  refine hargs.imp fun arg info hl => ?_
  exact shares_of_sameId hs hlen hsame (mem_occurrences hp (hocc ▸ hl.1)) hl.2

/-- 共有が値を変えなければ、登録された operand はどれも、table を引いた引数と同じ値になる。 -/
theorem shares_of_sound (hbuilt : List.Forall₂ (env.Built t) insts handlers)
    (hsound : env.Sound insts t handlers) {arg : RemillOperand × Bool}
    (harg : arg ∈ env.occurrences insts) :
    ∃ info, t.map.lookup (env.id arg) = some info ∧ env.Shares t arg info := by
  induction hbuilt with
  | nil => cases harg
  | @cons p handler insts handlers hb _ ih =>
    obtain ⟨hshares, hrest⟩ := List.forall₂_cons.mp hsound
    rw [occurrences_cons] at harg
    rcases List.mem_append.mp harg with harg | harg
    · cases handler with
      | none =>
        rw [show env.occurrences [p] = [] from hb] at harg
        cases harg
      | some h =>
        rw [hb.1] at harg
        exact exists_of_forall₂ hb.2 (hshares h rfl) harg
    · exact ih hrest harg

theorem sameId_of_sound (hbuilt : List.Forall₂ (env.Built t) insts handlers)
    (hsound : env.Sound insts t handlers) : env.SameId insts := by
  intro a ha b hb hid st
  obtain ⟨info, hl, shared, hshared, hlift⟩ := shares_of_sound hbuilt hsound ha
  obtain ⟨info', hl', shared', hshared', hlift'⟩ := shares_of_sound hbuilt hsound hb
  rw [← hid, hl, Option.some.injEq] at hl'
  subst hl'
  rw [hshared, Option.some.injEq] at hshared'
  subst hshared'
  rw [← hlift st, hlift' st]

/--
空の table から命令の列を登録したとき、異なる ID が 31 bit の番号に収まり、同じ ID の operand が値に関わる field で
一致するなら、共有は値を変えない。逆に共有が値を変えないなら、同じ ID の register どうし、即値どうしは一致する。
-/
theorem initRemills_sound
    (h : env.initRemills insts Interner.empty = .ok (t, handlers)) :
    (((env.occurrences insts).map env.id).eraseDups.length ≤ 2 ^ 31 → env.IdsAgree insts →
      env.Sound insts t handlers) ∧
    (env.Sound insts t handlers → ∀ a ∈ env.occurrences insts, ∀ b ∈ env.occurrences insts,
      a.1.value.type = b.1.value.type →
      a.1.value.type = .register ∨ a.1.value.type = .immediate → env.id a = env.id b →
      RemillOperand.Agrees env.regoffs a b) := by
  have hempty : (Interner.empty : OperandTable).Holds
      (([] : List (RemillOperand × Bool)).map env.request) := Interner.holds_empty
  obtain ⟨-, hbuilt, hs⟩ := initRemills_spec h hempty
  rw [List.nil_append] at hs
  constructor
  · intro hlen hagree
    exact sound_of_sameId hs hlen (fun a ha b hb hid => ownLift_congr (hagree a ha b hb hid)) hbuilt
  · intro hsound a ha b hb hkind hplain hid
    exact agrees_of_ownLift_eq hkind hplain hid (sameId_of_sound hbuilt hsound a ha b hb hid)

end

/-- 実装が一つだけの環境。`hash` は 8 byte までの列では衝突しない。 -/
def sampleEnv : RemillEnv where
  hash := fun bs => UInt64.ofNat (ofLE bs)
  handlers := [⟨0x444441, 0x4000⟩]
  isPointerArg := fun _ n => n = 2
  regoffs := fun name => if name = [0x58, 0x30] then some 544 else none

/-- `ADD X0, X0` の命令。最後の operand は `op` である。 -/
def sampleInst (op : RemillOperand) : Bytes × RemillInstruction :=
  ([0x00, 0x14, 0x00, 0x91], ⟨[0x41, 0x44, 0x44], [0x00, 0x14, 0x00, 0x91],
    [⟨64, .write, .reg ⟨[0x58, 0x30], 64, 0⟩⟩, ⟨64, .read, .reg ⟨[0x58, 0x30], 64, 0⟩⟩, op]⟩)

/-- `ADD X0, X0, val`。即値の幅は `size` である。 -/
def sampleAdd (val size : UInt64) : Bytes × RemillInstruction :=
  sampleInst ⟨size, .read, .imm val true⟩

/-- 幅の違う 1 と、種類の無い operand も登録する命令の列。 -/
def sampleInsts : List (Bytes × RemillInstruction) :=
  [sampleAdd 0xFF 64, sampleAdd 1 8, sampleInst ⟨0, .read, .invalid⟩, sampleAdd 1 64]

/-- 1 は 8 bit でも 64 bit でも同じ値なので、共有は値を変えない。 -/
theorem sampleAdd_sound : ∃ t handlers,
    sampleEnv.initRemills sampleInsts Interner.empty = .ok (t, handlers) ∧ t.items.length = 5 ∧
    sampleEnv.Sound sampleInsts t handlers := by
  have h : ∃ t handlers, sampleEnv.initRemills sampleInsts Interner.empty = .ok (t, handlers) ∧
      t.items.length = 5 := ⟨_, _, rfl, rfl⟩
  obtain ⟨t, handlers, h, hlen⟩ := h
  refine ⟨t, handlers, h, hlen, (initRemills_sound h).1 (by decide) ?_⟩
  have hpairs : ∀ a ∈ sampleEnv.occurrences sampleInsts,
      ∀ b ∈ sampleEnv.occurrences sampleInsts, sampleEnv.id a = sampleEnv.id b → a = b ∨
        a = (⟨8, .read, .imm 1 true⟩, false) ∧ b = (⟨64, .read, .imm 1 true⟩, false) ∨
        a = (⟨64, .read, .imm 1 true⟩, false) ∧ b = (⟨8, .read, .imm 1 true⟩, false) := by decide
  intro a ha b hb hid
  rcases hpairs a ha b hb hid with rfl | ⟨rfl, rfl⟩ | ⟨rfl, rfl⟩
  · exact .refl _ _
  · exact ⟨rfl, rfl, by decide⟩
  · exact ⟨rfl, rfl, by decide⟩

/-- 同じ即値を 8 bit と 64 bit で使うと、後の命令は前の命令の幅で符号拡張した値を受け取る。 -/
theorem sampleAdd_not_sound : ∃ t handlers,
    sampleEnv.initRemills [sampleAdd 0xFF 8, sampleAdd 0xFF 64] Interner.empty
      = .ok (t, handlers) ∧
    ¬ sampleEnv.Sound [sampleAdd 0xFF 8, sampleAdd 0xFF 64] t handlers := by
  have h : ∃ t handlers, sampleEnv.initRemills [sampleAdd 0xFF 8, sampleAdd 0xFF 64]
      Interner.empty = .ok (t, handlers) := ⟨_, _, rfl⟩
  obtain ⟨t, handlers, h⟩ := h
  refine ⟨t, handlers, h, fun hsound => ?_⟩
  have hempty : (Interner.empty : OperandTable).Holds
      (([] : List (RemillOperand × Bool)).map sampleEnv.request) := Interner.holds_empty
  have hsame := sameId_of_sound (initRemills_spec h hempty).2.1 hsound
  have hlift := hsame (⟨8, .read, .imm 0xFF true⟩, false) (by decide)
    (⟨64, .read, .imm 0xFF true⟩, false) (by decide) (by decide) ⟨0, fun _ => 0⟩
  exact absurd hlift (by decide)

end AetherVM.RemillEnv
