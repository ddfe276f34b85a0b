import AetherVM.Interp.VmEntry

/-!
# `vmEntry` は pc の命令を探すだけの interpreter に等しい

`nexticache` は命令の選び方を速めるだけで、どの命令を実行するかは pc だけで決まる。run の途中の
`runtimes` は、cache を忘れれば `main` に入ったときのものと同じなので、最初の `runtimes` から引いた
interpreter と一歩ずつ対応する。
-/

namespace AetherVM

open Infra IMetaData

/-- `nexticache` を忘れる。 -/
def RuntimeMetaData.forget (rt : RuntimeMetaData) : RuntimeMetaData := { rt with nexticache := [] }

namespace InterpMetaData

/-- `cur` の命令の後の pc から、次の命令を正しく決められること。`Safe` を番地だけで言う。 -/
structure Settles (this : UInt64) (runtimes : List RuntimeMetaData) (cur pc : UInt64) : Prop where
  sentinel : pc = this → (∀ rt ∈ runtimes, rt.contain pc = false) ∧
    ¬ (rtStart runtimes ≤ pc ∧ pc < rtEnd runtimes)
  outside : (∀ rt ∈ runtimes, rt.contain pc = false) →
    ¬ (rtStart runtimes ≤ pc ∧ pc < rtEnd runtimes)
  entry : ∀ rt ∈ runtimes, rt.contain pc = true → ∃ k, EntryAt rt pc k
  last : ∀ rt ∈ runtimes, rt.contain cur = true → rt.contain pc = true →
    ∃ insn ∈ rt.insns, cur.toNat < rt.rtbase.toNat + insn.rva.toNat
  other : ∀ rt ∈ runtimes, rt.contain pc = true → rt.contain cur = false →
    pc < rtEnd runtimes ∧ Findable runtimes pc

variable {runtimes runtimes' : List RuntimeMetaData} {rt : RuntimeMetaData}
  {this addr cur pc : UInt64} {j k : Nat} {st st' : VmState}

/-! ## cache を忘れても変わらないもの -/

@[simp] theorem contain_forget : rt.forget.contain addr = rt.contain addr := rfl

@[simp] theorem entryAt_forget : EntryAt rt.forget addr k ↔ EntryAt rt addr k := Iff.rfl

@[simp] theorem rtStart_forget : rtStart (runtimes.map RuntimeMetaData.forget) = rtStart runtimes := by
  cases runtimes with
  | nil => rfl
  | cons rt rest => rfl

@[simp] theorem rtEnd_forget : rtEnd (runtimes.map RuntimeMetaData.forget) = rtEnd runtimes := by
  rw [rtEnd, rtEnd, List.getLast?_map]
  cases runtimes.getLast? with
  | none => rfl
  | some rt => rfl

theorem nearest_forget : (∃ rt, Nearest (runtimes.map RuntimeMetaData.forget) addr j rt ∧
      (rt.contain addr = true ∨ rt.rtend < addr ∧
        ∀ r ∈ runtimes.map RuntimeMetaData.forget, r.contain addr = false)) ↔
    ∃ rt, Nearest runtimes addr j rt ∧
      (rt.contain addr = true ∨ rt.rtend < addr ∧ ∀ r ∈ runtimes, r.contain addr = false) := by
  simp only [List.forall_mem_map, contain_forget]
  constructor
  · rintro ⟨_, ⟨hget, hbelow, habove⟩, hc⟩
    rw [List.getElem?_map] at hget
    obtain ⟨rt, hrt, rfl⟩ := Option.map_eq_some_iff.mp hget
    refine ⟨rt, ⟨hrt, fun i r hi hr => hbelow i r.forget hi ?_, ?_⟩, hc⟩
    · rw [List.getElem?_map, hr, Option.map_some]
    · rwa [List.length_map] at habove
  · rintro ⟨rt, ⟨hget, hbelow, habove⟩, hc⟩
    refine ⟨rt.forget, ⟨?_, fun i r hi hr => ?_, ?_⟩, hc⟩
    · rw [List.getElem?_map, hget, Option.map_some]
    · rw [List.getElem?_map] at hr
      obtain ⟨r, hrt, rfl⟩ := Option.map_eq_some_iff.mp hr
      exact hbelow i r hi hrt
    · rwa [List.length_map]

@[simp] theorem findable_forget :
    Findable (runtimes.map RuntimeMetaData.forget) addr ↔ Findable runtimes addr :=
  exists_congr fun _ => nearest_forget

theorem settles_forget :
    Settles this (runtimes.map RuntimeMetaData.forget) cur pc ↔ Settles this runtimes cur pc := by
  constructor
  · rintro ⟨h1, h2, h3, h4, h5⟩
    simp only [List.forall_mem_map, contain_forget, entryAt_forget, rtStart_forget, rtEnd_forget,
      findable_forget] at h1 h2 h3 h4 h5
    exact ⟨h1, h2, h3, h4, h5⟩
  · rintro ⟨h1, h2, h3, h4, h5⟩
    refine ⟨?_, ?_, ?_, ?_, ?_⟩
    all_goals simpa only [List.forall_mem_map, contain_forget, entryAt_forget, rtStart_forget,
      rtEnd_forget, findable_forget]

theorem locate_forget : locate (runtimes.map RuntimeMetaData.forget) addr =
    (locate runtimes addr).map fun p => (p.1.forget, p.2) := by
  rw [locate, locate, List.find?_map]
  have hcomp : (fun rt : RuntimeMetaData => rt.contain addr) ∘ RuntimeMetaData.forget =
      fun rt => rt.contain addr := rfl
  rw [hcomp]
  cases runtimes.find? fun rt => rt.contain addr with
  | none => rfl
  | some rt =>
    simp only [Option.map_some, Option.bind_some, Option.map_map]
    rfl

section

variable {M ν : Type} {ext : External M ν}

@[simp] theorem interpreter_pc (cpu : Cpu M) : (ext.interpreter runtimes).pc cpu = ext.pc cpu := rfl

@[simp] theorem interpreter_host (cpu : Cpu M) :
    (ext.interpreter runtimes).host cpu = ext.host cpu := rfl

@[simp] theorem interpreter_hook (cpu : Cpu M) :
    (ext.interpreter runtimes).hook cpu = ext.hook cpu := rfl

/-- cache だけが違う module の列は、同じ interpreter を与える。 -/
theorem interpreter_congr (h : runtimes.map RuntimeMetaData.forget =
    runtimes'.map RuntimeMetaData.forget) : ext.interpreter runtimes = ext.interpreter runtimes' := by
  have hforget : ∀ l : List RuntimeMetaData,
      ext.interpreter (l.map RuntimeMetaData.forget) = ext.interpreter l := by
    intro l
    rw [External.interpreter, External.interpreter, Interpreter.mk.injEq]
    refine ⟨rfl, funext fun addr => ?_, rfl, rfl⟩
    rw [locate_forget, Option.map_map]
    rfl
  rw [← hforget runtimes, h, hforget]

end

/-! ## 表を先頭から探した答え -/

theorem locate_of_entryAt (hd : Disjoint runtimes) (hinc : rt.Increasing) (hrt : rt ∈ runtimes)
    (hin : rt.contain addr = true) (hk : EntryAt rt addr k) :
    locate runtimes addr = some (rt, k) := by
  have hfind : runtimes.find? (fun r => r.contain addr) = some rt := by
    cases hf : runtimes.find? fun r => r.contain addr with
    | none => exact absurd hin (by simpa using List.find?_eq_none.mp hf rt hrt)
    | some r =>
      obtain ⟨i, hi⟩ := List.mem_iff_getElem?.mp (List.mem_of_find?_eq_some hf)
      obtain ⟨j, hj⟩ := List.mem_iff_getElem?.mp hrt
      have hr : r.contain addr = true := by simpa using List.find?_some hf
      have heq := hd.index_unique hi hj hr hin
      subst heq
      rw [← hi, hj]
  rw [locate, hfind, Option.bind_some]
  obtain ⟨e, he, hrva⟩ := hk
  obtain ⟨hlt, hek⟩ := List.getElem?_eq_some_iff.mp he
  have hidx : rt.insns.findIdx? (fun insn => rt.rtbase.toNat + insn.rva.toNat = addr.toNat) =
      some k := by
    rw [List.findIdx?_eq_some_iff_getElem]
    refine ⟨hlt, by rw [hek]; exact decide_eq_true hrva, fun i hi hc => ?_⟩
    have hlt' := RuntimeMetaData.rva_lt_of_lt hinc hi (List.getElem?_eq_getElem (by omega)) he
    have hc := of_decide_eq_true hc
    omega
  rw [hidx, Option.map_some]

theorem locate_eq_none (h : ∀ rt ∈ runtimes, rt.contain addr = false) :
    locate runtimes addr = none := by
  have hfind : runtimes.find? (fun r => r.contain addr) = none := by
    simpa [List.find?_eq_none] using h
  rw [locate, hfind, Option.bind_none]

/-! ## 次の命令 -/

/-- 表の最後の命令でなければ、次の entry も表の中にある。 -/
theorem insn_succ_lt (hinc : rt.Increasing) (hk : EntryAt rt cur k)
    (hlast : ∃ insn ∈ rt.insns, cur.toNat < rt.rtbase.toNat + insn.rva.toNat) :
    k + 1 < rt.insns.length := by
  obtain ⟨e, he, hrva⟩ := hk
  obtain ⟨insn, hinsn, hlt⟩ := hlast
  obtain ⟨i, hi⟩ := List.mem_iff_getElem?.mp hinsn
  obtain ⟨hilt, -⟩ := List.getElem?_eq_some_iff.mp hi
  by_contra hc
  have hle := RuntimeMetaData.rva_le_of_le hinc (i := i) (j := k) (by omega) hi he
  omega

theorem safe_of_settles (hinv : Inv st) (hrt : st.runtimes[st.rt]? = some rt)
    (hin : rt.contain cur = true) (hat : EntryAt rt cur st.insn)
    (hs : Settles this st.runtimes cur pc) : Safe this st pc := by
  refine ⟨fun hp => ⟨fun r hr => (hs.sentinel hp).1 r (List.mem_of_getElem? hr),
    (hs.sentinel hp).2⟩, hs.outside, fun r hr hc => ?_, fun i r hi hne hc => ?_, hs.entry⟩
  · rw [hrt, Option.some.injEq] at hr
    subst hr
    have hmem := List.mem_of_getElem? hrt
    exact insn_succ_lt (hinv.increasing rt hmem) hat (hs.last rt hmem hin hc)
  · -- 別の module なので、いまの番地は含まない
    refine hs.other r (List.mem_of_getElem? hi) hc (Bool.not_eq_true _ ▸ fun hcur => hne ?_)
    exact hinv.disjoint.index_unique hi hrt hcur hin

/-- 次の命令へ進んでも、変わるのは cache だけである。 -/
theorem forget_of_next (h : (dispatch this st pc).2 = .next st') :
    st'.runtimes.map RuntimeMetaData.forget = st.runtimes.map RuntimeMetaData.forget := by
  simp only [dispatch] at h
  split at h
  · cases h
  next rt hrt =>
  split at h
  · simp only [dispatchSame] at h
    split at h
    · cases h
      rfl
    split at h
    · cases h
    split at h
    · cases h
      rfl
    split at h
    · cases h
    · cases h
      exact map_set_eq _ hrt rfl
  split at h
  · simp only [dispatchOther] at h
    split at h
    · split at h
      · cases h
      split at h
      · cases h
      · cases h
        rfl
    · cases h
  split at h
  · cases h
  · cases h

/-- 次の命令へ進んだ先は、pc の命令である。 -/
theorem current_of_next (hex : Exact this st pc) (hj : st.runtimes[j]? = some rt)
    (hin : rt.contain pc = true) (hk : EntryAt rt pc k) :
    ∃ st' rt', (dispatch this st pc).2 = .next st' ∧ st'.runtimes[st'.rt]? = some rt' ∧
      rt'.contain pc = true ∧ EntryAt rt' pc st'.insn := by
  obtain ⟨st', hnext, hst', hinsn, -⟩ := hex.entry j rt k hj hin hk
  have hget := congrArg (·[j]?) (forget_of_next hnext)
  simp only [List.getElem?_map, hj, Option.map_some] at hget
  obtain ⟨rt', hrt', hforget⟩ := Option.map_eq_some_iff.mp hget
  refine ⟨st', rt', hnext, by rw [hst', hrt'], ?_, ?_⟩
  · rw [← contain_forget, hforget]
    exact hin
  · rw [hinsn, ← entryAt_forget, hforget]
    exact hk

/-! ## 対応 -/

section

variable {M ν : Type} {ext : External M ν}

/--
`vmEntry` の状態が、interpreter の状態を表すこと。いまの命令は `cur` の命令で、module の列は cache を
忘れれば `runtimes` である。
-/
structure Corresponds (runtimes : List RuntimeMetaData) (v : Vm M) (s : Spot (Cpu M)) : Prop where
  phase : s.phase = v.phase
  cpu : s.cpu = v.cpu
  inv : Inv v.st
  same : v.st.runtimes.map RuntimeMetaData.forget = runtimes.map RuntimeMetaData.forget
  current : ∃ rt, v.st.runtimes[v.st.rt]? = some rt ∧ rt.contain s.cur = true ∧
    EntryAt rt s.cur v.st.insn

/-- 命令の実行は、同じ record を読む。 -/
theorem code_of_current (ext : External M ν) (hinv : Inv st) (hrt : st.runtimes[st.rt]? = some rt)
    (hin : rt.contain cur = true) (hat : EntryAt rt cur st.insn) :
    (ext.interpreter st.runtimes).code cur =
      some (ext.runInsn st.metadata st.mdinsns st.operands st.expressions st.insn) := by
  obtain ⟨rt', hrt', -, hsec⟩ := hinv.current
  rw [hrt, Option.some.injEq] at hrt'
  subst hrt'
  have hmem := List.mem_of_getElem? hrt
  simp only [External.interpreter,
    locate_of_entryAt hinv.disjoint (hinv.increasing rt hmem) hmem hin hat, Option.map_some,
    hsec.metadata, hsec.mdinsns, hsec.operands, hsec.expressions]

theorem step_exec {v : Vm M} {s : Spot (Cpu M)} (h : Corresponds runtimes v s)
    (hphase : v.phase = .exec) :
    Sum.LiftRel (Corresponds runtimes) Eq (vmStep ext this v)
      ((ext.interpreter runtimes).step this s) := by
  obtain ⟨rt, hrt, hin, hat⟩ := h.current
  have hcode := code_of_current ext h.inv hrt hin hat
  rw [interpreter_congr h.same] at hcode
  simp only [vmStep, Interpreter.step, h.phase, hphase, h.cpu, hcode, interpreter_pc,
    interpreter_hook]
  by_cases hp : ext.pc v.cpu = this
  · rw [if_pos hp, if_pos hp]
    exact .inr rfl
  rw [if_neg hp, if_neg hp]
  cases ext.runInsn v.st.metadata v.st.mdinsns v.st.operands v.st.expressions v.st.insn
      (ext.hook v.cpu) with
  | error fault => exact .inr rfl
  | ok cpu => exact .inl ⟨rfl, rfl, h.inv, h.same, rt, hrt, hin, hat⟩

theorem step_seek {v : Vm M} {s : Spot (Cpu M)} (h : Corresponds runtimes v s)
    (hphase : v.phase = .seek) (hs : Settles this runtimes s.cur (ext.pc s.cpu)) :
    Sum.LiftRel (Corresponds runtimes) Eq (vmStep ext this v)
      ((ext.interpreter runtimes).step this s) := by
  obtain ⟨rt, hrt, hin, hat⟩ := h.current
  rw [← settles_forget, ← h.same, settles_forget, h.cpu] at hs
  have hsafe := safe_of_settles h.inv hrt hin hat hs
  have hex := exact_of_safe h.inv hsafe
  simp only [vmStep, Interpreter.step, h.phase, hphase, h.cpu, interpreter_pc, interpreter_host]
  by_cases hp : ext.pc v.cpu = this
  · rw [if_pos hp, hex.sentinel hp]
    exact .inr rfl
  rw [if_neg hp]
  by_cases hall : ∀ r ∈ v.st.runtimes, r.contain (ext.pc v.cpu) = false
  · have hcode : (ext.interpreter runtimes).code (ext.pc v.cpu) = none := by
      rw [← interpreter_congr h.same, External.interpreter]
      simp only [locate_eq_none hall, Option.map_none]
    have hnone : ∀ r ∈ v.st.runtimes, r.contain (ext.pc v.cpu) = true →
        ∀ k, ¬ EntryAt r (ext.pc v.cpu) k := by
      intro r hr hin
      rw [hall r hr] at hin
      cases hin
    rw [hcode, hex.host hnone hp]
    exact .inl ⟨rfl, rfl, h.inv, h.same, rt, hrt, hin, hat⟩
  · obtain ⟨m, hm, hc⟩ : ∃ m ∈ v.st.runtimes, m.contain (ext.pc v.cpu) = true := by
      simpa using hall
    obtain ⟨k, hk⟩ := hs.entry m hm hc
    obtain ⟨j, hj⟩ := List.mem_iff_getElem?.mp hm
    obtain ⟨st', rt', hnext, hrt', hin', hat'⟩ := current_of_next hex hj hc hk
    have hinv := inv_step h.inv hsafe (Or.inl hnext)
    have hsame := (forget_of_next hnext).trans h.same
    have hcode := code_of_current ext hinv hrt' hin' hat'
    rw [interpreter_congr hsame] at hcode
    rw [hcode, hnext]
    exact .inl ⟨rfl, rfl, hinv, hsame, rt', hrt', hin', hat'⟩

/-- 一歩は対応を保つ。 -/
theorem step_corresponds {v : Vm M} {s : Spot (Cpu M)} (h : Corresponds runtimes v s)
    (hs : s.phase = .seek → Settles this runtimes s.cur (ext.pc s.cpu)) :
    Sum.LiftRel (Corresponds runtimes) Eq (vmStep ext this v)
      ((ext.interpreter runtimes).step this s) := by
  cases hphase : v.phase with
  | exec => exact step_exec h hphase
  | seek => exact step_seek h hphase (hs (h.phase.trans hphase))

/-- `vmEntry` の状態から、cache と局所変数を忘れる。 -/
def Vm.spot (v : Vm M) : Spot (Cpu M) where
  phase := v.phase
  cur :=
    match v.st.runtimes[v.st.rt]? with
    | none => 0
    | some rt => rt.rtbase + (rt.insn v.st.insn).rva.toUInt64
  cpu := v.cpu

theorem Corresponds.spot_eq {v : Vm M} {s : Spot (Cpu M)} (h : Corresponds runtimes v s) :
    s = v.spot := by
  obtain ⟨rt, hrt, hin, e, he, hrva⟩ := h.current
  have hcur : rt.rtbase + e.rva.toUInt64 = s.cur := (base_add_rva_eq_iff hin _).mpr hrva
  rw [Vm.spot, hrt, ← h.phase, ← h.cpu]
  simp only [RuntimeMetaData.insn_eq he, hcur]

/-- 対応する状態から始めた run は、どの長さでも同じ状態を辿り、同じ結果で終わる。 -/
theorem loop_corresponds {v : Vm M} {s : Spot (Cpu M)} (h : Corresponds runtimes v s)
    (hok : ∀ s', Reaches ((ext.interpreter runtimes).step this) s s' → s'.phase = .seek →
      Settles this runtimes s'.cur (ext.pc s'.cpu)) (fuel : Nat) :
    loop ((ext.interpreter runtimes).step this) fuel s =
      (loop (vmStep ext this) fuel v).map Vm.spot id := by
  have hrel : Sum.LiftRel (Corresponds runtimes) Eq (loop (vmStep ext this) fuel v)
      (loop ((ext.interpreter runtimes).step this) fuel s) :=
    loop_liftRel (fun v s h hs => step_corresponds h hs) fuel _ _ h hok
  refine map_of_liftRel (fun v s h => h.spot_eq) (hrel.mono (fun _ _ => id) fun o o' h => ?_)
  exact h.symm

end

/-! ## `main` から -/

/-- 探索が正しく答える entry なら、`main` はその命令から始める。 -/
theorem start_of_entryAt {mods : List RuntimeMetaData} (hload : Loaded mods runtimes)
    (hcache : ∀ rt ∈ mods, rt.nexticache = freshCache rt.insns.length) (hd : Disjoint mods)
    (hinc : ∀ rt ∈ mods, rt.Increasing) (hrt : rt ∈ runtimes) (hin : rt.contain addr = true)
    (hk : EntryAt rt addr k) (hf : Findable runtimes addr) :
    ∃ st, start runtimes addr = .started st ∧ Inv st ∧ st.runtimes = runtimes ∧
      st.runtimes[st.rt]? = some rt ∧ st.insn = k := by
  obtain ⟨hp, hsorted⟩ := hload.sorts
  obtain ⟨j, hj⟩ := List.mem_iff_getElem?.mp hrt
  have hdis := hd.perm hp
  have hfind : find runtimes addr = some (some j) := by
    rcases (correct_iff hsorted).mpr hf with ⟨i, r, hi, hr, hfound⟩ | ⟨hall, -⟩
    · rw [hfound, hdis.index_unique hi hj hr hin]
    · rw [hall rt hrt] at hin
      cases hin
  have hrtinc := hinc rt (hp.mem_iff.mp hrt)
  obtain ⟨e, he, hrva⟩ := hk
  obtain ⟨hlt, -⟩ := List.getElem?_eq_some_iff.mp he
  have hstart : start runtimes addr =
      .started (VmState.enter ⟨runtimes, 0, 0, 0, 0, 0, 0⟩ j rt k) := by
    simp only [start, hfind, hj, find_of_entryAt hrtinc ⟨e, he, hrva⟩]
  refine ⟨_, hstart, inv_of_entered ⟨hload, hcache, rt, hj, hlt, InSections.enter _ j rt k⟩ hd hinc,
    rfl, hj, rfl⟩

/-- 探索が正しく答え、どの module も entry を含まないなら、`main` は `-1` を返す。 -/
theorem start_of_outside (hs : runtimes.Pairwise baseLe) (hf : Findable runtimes addr)
    (hall : ∀ rt ∈ runtimes, rt.contain addr = false) : start runtimes addr = .exit := by
  rcases (correct_iff hs).mpr hf with ⟨j, r, hj, hr, -⟩ | ⟨-, hfound⟩
  · rw [hall r (List.mem_of_getElem? hj)] at hr
    cases hr
  · simp only [start, hfound]

/-- `main` の始めた状態は、entry から始める interpreter の状態を表す。 -/
theorem started_corresponds {M : Type} {mods : List RuntimeMetaData} (hload : Loaded mods runtimes)
    (hcache : ∀ rt ∈ mods, rt.nexticache = freshCache rt.insns.length) (hd : Disjoint mods)
    (hinc : ∀ rt ∈ mods, rt.Increasing)
    (hentry : ∃ rt ∈ runtimes, rt.contain addr = true ∧ ∃ k, EntryAt rt addr k)
    (hf : Findable runtimes addr) (cpu : Cpu M) :
    ∃ st, start runtimes addr = .started st ∧
      Corresponds runtimes ⟨.exec, st, cpu⟩ ⟨.exec, addr, cpu⟩ := by
  obtain ⟨rt, hrt, hin, k, hk⟩ := hentry
  obtain ⟨st, hstart, hinv, hruntimes, hget, hinsn⟩ :=
    start_of_entryAt hload hcache hd hinc hrt hin hk hf
  have hcur : EntryAt rt addr st.insn := by
    rw [hinsn]
    exact hk
  exact ⟨st, hstart, rfl, rfl, hinv, by rw [hruntimes], rt, hget, hin, hcur⟩

/--
範囲の重ならない module と `rva` の狭義の昇順の表について、entry の命令が見つかり、pc の命令を探すだけの
interpreter の run がいつも次の命令を正しく決められる所にあるなら、`main` はその命令から始めて、`vmEntry` は
どの長さの run でもその interpreter と同じ状態を辿り、同じ結果で終わる。
-/
theorem main_refines {M ν : Type} {ext : External M ν} {mods : List RuntimeMetaData}
    {entry argc argv : UInt64} {cpu : Cpu M} (hload : Loaded mods runtimes)
    (hcache : ∀ rt ∈ mods, rt.nexticache = freshCache rt.insns.length) (hd : Disjoint mods)
    (hinc : ∀ rt ∈ mods, rt.Increasing)
    (hentry : ∃ rt ∈ runtimes, rt.contain entry = true ∧ ∃ k, EntryAt rt entry k)
    (hf : Findable runtimes entry)
    (hok : ∀ s, Reaches ((ext.interpreter runtimes).step this)
      ⟨.exec, entry, ext.enterMain this entry argc argv cpu⟩ s → s.phase = .seek →
        Settles this runtimes s.cur (ext.pc s.cpu)) :
    ∃ st, start runtimes entry = .started st ∧ ∀ fuel,
      loop ((ext.interpreter runtimes).step this) fuel
          ⟨.exec, entry, ext.enterMain this entry argc argv cpu⟩ =
        (loop (vmStep ext this) fuel
          ⟨.exec, st, ext.enterMain this entry argc argv cpu⟩).map Vm.spot id := by
  obtain ⟨st, hstart, hcorr⟩ :=
    started_corresponds hload hcache hd hinc hentry hf (ext.enterMain this entry argc argv cpu)
  exact ⟨st, hstart, loop_corresponds hcorr hok⟩

/-! ## 例 -/

/-- 命令を二つ持つ module。 -/
def sampleModule : RuntimeMetaData :=
  { image "sample" 0x1000 0x2000 with
    header := ⟨kMagic, kVersion, 80, kFlagARM64, 48, 2, 64, 0, 64, 0, 64, 2⟩
    insns := [⟨0, 0⟩, ⟨4, 8⟩]
    nexticache := freshCache 2 }

/-- `OHT_MCInst` の handler の record。 -/
def sampleRecord (impl : UInt16) : Bytes :=
  handlerCodec.enc ⟨impl, BitVec.ofNat 4 HandlerType.mcInst.toNat, 4, 0⟩ ++ [0, 0, 0, 0]

/-- `sampleModule` の file。 -/
def sampleVmFile : Bytes :=
  headerCodec.enc sampleModule.header ++ insnMetaCodec.encArray sampleModule.insns ++
    sampleRecord 0 ++ sampleRecord 1

/-- 一つ目の命令は次へ進み、二つ目の命令は `lr` へ戻る。 -/
def sampleExternal : External Unit Nat where
  layout := ⟨⟨0, 8⟩, 16, 24, 32⟩
  handlers := []
  images := fun _ => ⟨sampleVmFile, [1, 2]⟩
  invoke := fun _ cpu => cpu
  mcInst := fun inst cpu =>
    if inst = 1 then .ok { cpu with state := cpu.state.setWord 0 (cpu.state.word 0 + 4) }
    else .ok { cpu with state := cpu.state.setWord 0 (cpu.state.word 32) }
  native := fun _ cpu => cpu
  callHost := fun _ cpu => cpu
  hook := id

def sampleCpu : Cpu Unit :=
  sampleExternal.enterMain 0x9000 0x1000 0 0 ⟨⟨0, fun _ => 0⟩, ()⟩

/-- `cpu` の pc を書き換えたもの。 -/
def sampleAt (addr : UInt64) (cpu : Cpu Unit) : Cpu Unit :=
  { cpu with state := cpu.state.setWord 0 addr }

theorem sample_step_first :
    (sampleExternal.interpreter [sampleModule]).step 0x9000 ⟨.exec, 0x1000, sampleCpu⟩ =
      .inl ⟨.seek, 0x1000, sampleAt 0x1004 sampleCpu⟩ := rfl

theorem sample_step_second : (sampleExternal.interpreter [sampleModule]).step 0x9000
      ⟨.exec, 0x1004, sampleAt 0x1004 sampleCpu⟩ =
    .inl ⟨.seek, 0x1004, sampleAt 0x9000 (sampleAt 0x1004 sampleCpu)⟩ := rfl

/-- run は、二つの命令を実行し、番兵に着いて終わる。 -/
theorem sample_reaches {s : Spot (Cpu Unit)}
    (h : Reaches ((sampleExternal.interpreter [sampleModule]).step 0x9000)
      ⟨.exec, 0x1000, sampleCpu⟩ s) :
    s = ⟨.exec, 0x1000, sampleCpu⟩ ∨ s = ⟨.seek, 0x1000, sampleAt 0x1004 sampleCpu⟩ ∨
      s = ⟨.exec, 0x1004, sampleAt 0x1004 sampleCpu⟩ ∨
      s = ⟨.seek, 0x1004, sampleAt 0x9000 (sampleAt 0x1004 sampleCpu)⟩ := by
  induction h with
  | refl => exact .inl rfl
  | tail _ hs ih =>
    rcases ih with rfl | rfl | rfl | rfl
    · rw [sample_step_first] at hs
      cases hs
      exact .inr (.inl rfl)
    · cases hs
      exact .inr (.inr (.inl rfl))
    · rw [sample_step_second] at hs
      cases hs
      exact .inr (.inr (.inr rfl))
    · cases hs

theorem sample_settles_next : Settles 0x9000 [sampleModule] 0x1000 0x1004 where
  sentinel := fun h => absurd h (by decide)
  outside := fun h => absurd (h sampleModule (List.mem_cons_self ..)) (by decide)
  entry := fun rt hrt _ => by
    rw [List.mem_singleton.mp hrt]
    exact ⟨1, ⟨4, 8⟩, rfl, rfl⟩
  last := fun rt hrt _ _ => by
    rw [List.mem_singleton.mp hrt]
    exact ⟨⟨4, 8⟩, by decide, by decide⟩
  other := fun rt hrt _ hcur => by
    rw [List.mem_singleton.mp hrt] at hcur
    exact absurd hcur (by decide)

theorem sample_settles_last : Settles 0x9000 [sampleModule] 0x1004 0x9000 where
  sentinel := fun _ => ⟨fun rt hrt => by rw [List.mem_singleton.mp hrt]; decide, by decide⟩
  outside := fun _ => by decide
  entry := fun rt hrt hin => by
    rw [List.mem_singleton.mp hrt] at hin
    exact absurd hin (by decide)
  last := fun rt hrt _ hin => by
    rw [List.mem_singleton.mp hrt] at hin
    exact absurd hin (by decide)
  other := fun rt hrt hin _ => by
    rw [List.mem_singleton.mp hrt] at hin
    exact absurd hin (by decide)

/-- 二つの命令を実行して終わる。 -/
theorem main_refines_sample : ∃ st, start [sampleModule] 0x1000 = .started st ∧
    (loop (vmStep sampleExternal 0x9000) 5 ⟨.exec, st, sampleCpu⟩).map Vm.spot id =
      .inr (.ok (sampleAt 0x9000 (sampleAt 0x1004 sampleCpu))) := by
  have hfind : Findable [sampleModule] 0x1000 :=
    ⟨0, sampleModule, ⟨rfl, nofun, .inl (by decide)⟩, .inl (by decide)⟩
  obtain ⟨st, hstart, hrun⟩ : ∃ st, start [sampleModule] 0x1000 = .started st ∧ ∀ fuel,
      loop ((sampleExternal.interpreter [sampleModule]).step 0x9000) fuel
          ⟨.exec, 0x1000, sampleExternal.enterMain 0x9000 0x1000 0 0 ⟨⟨0, fun _ => 0⟩, ()⟩⟩ =
        (loop (vmStep sampleExternal 0x9000) fuel ⟨.exec, st,
          sampleExternal.enterMain 0x9000 0x1000 0 0 ⟨⟨0, fun _ => 0⟩, ()⟩⟩).map Vm.spot id :=
    main_refines (loaded_add .nil "sample.aevm" sampleModule)
    (fun rt hrt => by rw [List.mem_singleton.mp hrt]; rfl) (List.pairwise_singleton ..)
    (fun rt hrt => by
      rw [List.mem_singleton.mp hrt]
      show sampleModule.insns.Pairwise _
      decide)
    ⟨sampleModule, List.mem_singleton.mpr rfl, by decide, 0, ⟨0, 0⟩, rfl, rfl⟩ hfind
    (fun s hs hphase => by
      rcases sample_reaches hs with rfl | rfl | rfl | rfl
      · cases hphase
      · exact sample_settles_next
      · cases hphase
      · exact sample_settles_last)
  exact ⟨st, hstart, (hrun 5).symm⟩

end InterpMetaData

end AetherVM
