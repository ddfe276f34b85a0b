import AetherVM.Interp.Runtime

/-!
# module の探索は正しいか

`InterpMetaData::find` は、base が address より小さくない最初の module を取り、無ければ最後の module を
取る。取った module については `addr > rtend` だけを確かめ、base は確かめない。
途中の module の内側の address では、取られるのは一つ後ろの module になる。
-/

namespace AetherVM

open Infra

theorem RuntimeMetaData.contain_iff {rt : RuntimeMetaData} {addr : UInt64} :
    rt.contain addr = true ↔
      rt.rtbase.toNat ≤ addr.toNat ∧ addr.toNat < rt.rtend.toNat := by
  rw [contain, Bool.and_eq_true, decide_eq_true_eq, decide_eq_true_eq, UInt64.le_iff_toNat_le,
    UInt64.lt_iff_toNat_lt]

namespace InterpMetaData

variable {mods runtimes : List RuntimeMetaData} {addr : UInt64} {rt : RuntimeMetaData} {j : Nat}

/-- どの二つの module の範囲も重ならないこと。 -/
def Disjoint (mods : List RuntimeMetaData) : Prop :=
  mods.Pairwise fun a b => ∀ addr, ¬ (a.contain addr = true ∧ b.contain addr = true)

/-- 探索の答えが正しいこと。含む module があればそれを、無ければ `nullptr` を返す。 -/
def Correct (runtimes : List RuntimeMetaData) (addr : UInt64) : Prop :=
  (∃ j rt, runtimes[j]? = some rt ∧ rt.contain addr = true ∧
      find runtimes addr = some (some j)) ∨
    (∀ rt ∈ runtimes, rt.contain addr = false) ∧ find runtimes addr = some none

/-- base が `addr` より小さくない最初の module。無ければ最後の module。 -/
structure Nearest (runtimes : List RuntimeMetaData) (addr : UInt64) (j : Nat)
    (rt : RuntimeMetaData) : Prop where
  get : runtimes[j]? = some rt
  below : ∀ i r, i < j → runtimes[i]? = some r → r.rtbase < addr
  above : addr ≤ rt.rtbase ∨ j + 1 = runtimes.length

/--
探索が正しく答える条件。取られる module が `addr` を含むか、`addr` より前で終わっていて、含む module が
他にも無い。
-/
def Findable (runtimes : List RuntimeMetaData) (addr : UInt64) : Prop :=
  ∃ j rt, Nearest runtimes addr j rt ∧
    (rt.contain addr = true ∨ rt.rtend < addr ∧ ∀ r ∈ runtimes, r.contain addr = false)

/-! ## 整列した列 -/

theorem Disjoint.perm (h : Disjoint mods) (hp : runtimes.Perm mods) : Disjoint runtimes :=
  (hp.pairwise_iff fun h addr hc => h addr ⟨hc.2, hc.1⟩).mpr h

theorem Disjoint.ne_of_lt (h : Disjoint runtimes) {i j : Nat} {a b : RuntimeMetaData}
    (hij : i < j) (hi : runtimes[i]? = some a) (hj : runtimes[j]? = some b) (addr : UInt64) :
    ¬ (a.contain addr = true ∧ b.contain addr = true) := by
  obtain ⟨hi', rfl⟩ := List.getElem?_eq_some_iff.mp hi
  obtain ⟨hj', rfl⟩ := List.getElem?_eq_some_iff.mp hj
  exact List.pairwise_iff_getElem.mp h i j hi' hj' hij addr

/-- 含む module は高々一つである。 -/
theorem Disjoint.index_unique (h : Disjoint runtimes) {i j : Nat} {a b : RuntimeMetaData}
    (hi : runtimes[i]? = some a) (hj : runtimes[j]? = some b) (ha : a.contain addr = true)
    (hb : b.contain addr = true) : i = j := by
  rcases Nat.lt_trichotomy i j with hlt | heq | hgt
  · exact absurd ⟨ha, hb⟩ (h.ne_of_lt hlt hi hj addr)
  · exact heq
  · exact absurd ⟨hb, ha⟩ (h.ne_of_lt hgt hj hi addr)

theorem base_le_of_le (hs : runtimes.Pairwise baseLe) {i j : Nat} {a b : RuntimeMetaData}
    (hij : i ≤ j) (hi : runtimes[i]? = some a) (hj : runtimes[j]? = some b) :
    a.rtbase.toNat ≤ b.rtbase.toNat := by
  obtain ⟨hi', rfl⟩ := List.getElem?_eq_some_iff.mp hi
  obtain ⟨hj', rfl⟩ := List.getElem?_eq_some_iff.mp hj
  rcases Nat.lt_or_eq_of_le hij with hlt | rfl
  · exact UInt64.le_iff_toNat_le.mp (List.pairwise_iff_getElem.mp hs i j hi' hj' hlt)
  · exact Nat.le_refl _

theorem rtLt_eq_true_iff {i : Nat} :
    rtLt runtimes addr i = true ↔ ∃ r, runtimes[i]? = some r ∧ r.rtbase < addr := by
  unfold rtLt
  cases runtimes[i]? with
  | none => simp
  | some r => simp

theorem splitAt_rtLt (hs : runtimes.Pairwise baseLe) :
    SplitAt (rtLt runtimes addr) runtimes.length := by
  intro i j hij hj hlt
  obtain ⟨b, hb, hblt⟩ := rtLt_eq_true_iff.mp hlt
  have hi : runtimes[i]? = some runtimes[i] := List.getElem?_eq_getElem (by omega)
  have hle := base_le_of_le hs hij hi hb
  refine rtLt_eq_true_iff.mpr ⟨_, hi, ?_⟩
  rw [UInt64.lt_iff_toNat_lt] at hblt ⊢
  omega

/-! ## 探索の答え -/

theorem find_nil (addr : UInt64) : find [] addr = none := rfl

theorem exists_nearest (hs : runtimes.Pairwise baseLe) (hne : runtimes ≠ []) (addr : UInt64) :
    ∃ j rt, Nearest runtimes addr j rt := by
  have hpos : 0 < runtimes.length := List.length_pos_iff.mpr hne
  have hsplit : SplitAt (rtLt runtimes addr) runtimes.length := splitAt_rtLt hs
  have hle : binarySearch (rtLt runtimes addr) runtimes.length ≤ runtimes.length :=
    binarySearch_le hpos
  by_cases hend : binarySearch (rtLt runtimes addr) runtimes.length = runtimes.length
  · refine ⟨runtimes.length - 1, _, List.getElem?_eq_getElem (by omega), fun i r hi hr => ?_,
      Or.inr (by omega)⟩
    have hlt := lt_of_lt_binarySearch hsplit hpos (i := i) (by omega)
    obtain ⟨r', hr', hlt⟩ := rtLt_eq_true_iff.mp hlt
    rw [hr, Option.some.injEq] at hr'
    rw [hr']
    exact hlt
  · have hget : runtimes[binarySearch (rtLt runtimes addr) runtimes.length]? = some _ :=
      List.getElem?_eq_getElem (by omega)
    refine ⟨_, _, hget, fun i r hi hr => ?_, Or.inl ?_⟩
    · obtain ⟨r', hr', hlt⟩ := rtLt_eq_true_iff.mp (lt_of_lt_binarySearch hsplit hpos hi)
      rw [hr, Option.some.injEq] at hr'
      rw [hr']
      exact hlt
    · have hnot := not_lt_of_binarySearch_le hsplit hpos (Nat.le_refl _) (by omega)
      rw [rtLt, hget] at hnot
      simpa using hnot

/-- 探索は `Nearest` の module を取り、`rtend` だけを確かめる。 -/
theorem find_eq (hs : runtimes.Pairwise baseLe) (hn : Nearest runtimes addr j rt) :
    find runtimes addr = if rt.rtend < addr then some none else some (some j) := by
  obtain ⟨hget, hbelow, habove⟩ := hn
  obtain ⟨hj, hrt⟩ := List.getElem?_eq_some_iff.mp hget
  have hpos : 0 < runtimes.length := by omega
  have hsplit : SplitAt (rtLt runtimes addr) runtimes.length := splitAt_rtLt hs
  have hlow : ∀ i, i < j → rtLt runtimes addr i = true := fun i hi =>
    rtLt_eq_true_iff.mpr ⟨_, List.getElem?_eq_getElem (by omega),
      hbelow i _ hi (List.getElem?_eq_getElem (by omega))⟩
  have hfound : (if binarySearch (rtLt runtimes addr) runtimes.length = runtimes.length
      then runtimes.length - 1
      else binarySearch (rtLt runtimes addr) runtimes.length) = j := by
    by_cases hlt : rt.rtbase < addr
    · -- すべての base が小さいので、最後の module に戻す
      have hlast : j + 1 = runtimes.length :=
        habove.resolve_left (UInt64.not_le.mpr hlt)
      have hall : binarySearch (rtLt runtimes addr) runtimes.length = runtimes.length := by
        refine binarySearch_eq hsplit hpos (Nat.le_refl _) (fun i hi => ?_) (by omega)
        rcases Nat.lt_or_ge i j with h | h
        · exact hlow i h
        · have hij : i = j := by omega
          rw [hij]
          exact rtLt_eq_true_iff.mpr ⟨rt, hget, hlt⟩
      rw [if_pos hall]
      omega
    · have hk : binarySearch (rtLt runtimes addr) runtimes.length = j := by
        refine binarySearch_eq hsplit hpos (by omega) hlow fun _ => ?_
        rw [rtLt, hget]
        simpa using hlt
      rw [hk, if_neg (by omega)]
  simp only [find, hfound, hget]

theorem correct_iff (hs : runtimes.Pairwise baseLe) :
    Correct runtimes addr ↔ Findable runtimes addr := by
  constructor
  · intro hc
    -- 空の表では検索が範囲の外を読むので、正しいとは言えない
    have hne : runtimes ≠ [] := by
      rintro rfl
      rcases hc with ⟨j, rt, hj, -⟩ | ⟨-, hf⟩
      · simp at hj
      · rw [find_nil] at hf
        cases hf
    obtain ⟨j, rt, hn⟩ := exists_nearest hs hne addr
    refine ⟨j, rt, hn, ?_⟩
    have hf := find_eq hs hn
    by_cases hend : rt.rtend < addr
    · rw [if_pos hend] at hf
      rcases hc with ⟨j', rt', -, -, hf'⟩ | ⟨hall, -⟩
      · rw [hf] at hf'
        cases hf'
      · exact Or.inr ⟨hend, hall⟩
    · rw [if_neg hend] at hf
      rcases hc with ⟨j', rt', hj', hrt', hf'⟩ | ⟨-, hf'⟩
      · rw [hf, Option.some.injEq, Option.some.injEq] at hf'
        rw [← hf', hn.get, Option.some.injEq] at hj'
        rw [hj']
        exact Or.inl hrt'
      · rw [hf] at hf'
        cases hf'
  · rintro ⟨j, rt, hn, hcase⟩
    have hf := find_eq hs hn
    rcases hcase with hin | ⟨hend, hall⟩
    · refine Or.inl ⟨j, rt, hn.get, hin, ?_⟩
      rw [hf, if_neg]
      have := RuntimeMetaData.contain_iff.mp hin
      rw [UInt64.lt_iff_toNat_lt]
      omega
    · exact Or.inr ⟨hall, by rw [hf, if_pos hend]⟩

/-! ## 空でない module -/

/-- 探索が正しく答える address。どれかの base か、すべての base より大きく、どの end でもない。 -/
def Answered (mods : List RuntimeMetaData) (addr : UInt64) : Prop :=
  mods ≠ [] ∧ ((∃ rt ∈ mods, rt.rtbase = addr) ∨
    (∀ rt ∈ mods, rt.rtbase < addr) ∧ ∀ rt ∈ mods, rt.rtend ≠ addr)

theorem answered_perm (hp : runtimes.Perm mods) :
    Answered runtimes addr ↔ Answered mods addr := by
  have hnil : runtimes ≠ [] ↔ mods ≠ [] := by
    rw [not_iff_not]
    exact ⟨fun h => List.perm_nil.mp (h ▸ hp.symm), fun h => List.perm_nil.mp (h ▸ hp)⟩
  simp only [Answered, hnil, hp.mem_iff]

/-- 最後の module より前の module は、最後の module の base までに終わる。 -/
theorem end_le_last_base (hs : runtimes.Pairwise baseLe) (hd : Disjoint runtimes)
    (hne : ∀ rt ∈ runtimes, rt.rtbase < rt.rtend) {i j : Nat} {a b : RuntimeMetaData}
    (hij : i < j) (hi : runtimes[i]? = some a) (hj : runtimes[j]? = some b) :
    a.rtend.toNat ≤ b.rtbase.toNat := by
  by_contra hc
  have hle := base_le_of_le hs (Nat.le_of_lt hij) hi hj
  have hb := UInt64.lt_iff_toNat_lt.mp (hne b (List.mem_of_getElem? hj))
  refine hd.ne_of_lt hij hi hj b.rtbase ⟨?_, ?_⟩
  · rw [RuntimeMetaData.contain_iff]
    omega
  · rw [RuntimeMetaData.contain_iff]
    omega

section Nonempty

variable (hs : runtimes.Pairwise baseLe) (hne : ∀ rt ∈ runtimes, rt.rtbase < rt.rtend)
  (hn : Nearest runtimes addr j rt)

include hs hne hn

/-- 取られる module の base が `addr` 以上なら、正しいのは base ちょうどのときである。 -/
theorem correct_iff_of_not_below (hbase : ¬ rt.rtbase < addr) :
    (Correct runtimes addr ↔ rt.rtbase = addr) ∧
      (Answered runtimes addr ↔ rt.rtbase = addr) := by
  have hrt := UInt64.lt_iff_toNat_lt.mp (hne rt (List.mem_of_getElem? hn.get))
  -- 取られる module は `addr` 以上から始まるので、検索は必ずそれを返す
  have hge : addr.toNat ≤ rt.rtbase.toNat := by
    rw [UInt64.lt_iff_toNat_lt] at hbase
    omega
  have hfound : find runtimes addr = some (some j) := by
    rw [find_eq hs hn, if_neg]
    rw [UInt64.lt_iff_toNat_lt]
    omega
  constructor
  · constructor
    · rintro (⟨j', rt', hj', hin, hf'⟩ | ⟨-, hf'⟩)
      · rw [hfound, Option.some.injEq, Option.some.injEq] at hf'
        rw [← hf', hn.get, Option.some.injEq] at hj'
        subst hj'
        have hin := RuntimeMetaData.contain_iff.mp hin
        exact UInt64.toNat_inj.mp (by omega)
      · rw [hfound] at hf'
        cases hf'
    · rintro rfl
      exact Or.inl ⟨j, rt, hn.get, RuntimeMetaData.contain_iff.mpr ⟨Nat.le_refl _, hrt⟩, hfound⟩
  · constructor
    · rintro ⟨-, ⟨r, hr, rfl⟩ | ⟨hall, -⟩⟩
      · obtain ⟨i, hi⟩ := List.mem_iff_getElem?.mp hr
        rcases Nat.lt_or_ge i j with h | h
        · exact absurd (hn.below i r h hi) (UInt64.lt_irrefl _)
        · have hle := base_le_of_le hs h hn.get hi
          exact UInt64.toNat_inj.mp (by omega)
      · exact absurd (hall rt (List.mem_of_getElem? hn.get)) hbase
    · intro he
      have hmem := List.mem_of_getElem? hn.get
      exact ⟨List.ne_nil_of_mem hmem, Or.inl ⟨rt, hmem, he⟩⟩

/-- 取られるのが最後の module なら、他の module は `addr` より前で始まり、その base までに終わる。 -/
theorem others_below (hd : Disjoint runtimes) (hbase : rt.rtbase < addr) :
    ∀ r ∈ runtimes, r = rt ∨ r.rtbase < addr ∧ r.rtend.toNat ≤ rt.rtbase.toNat := by
  have hlast : j + 1 = runtimes.length := hn.above.resolve_left (UInt64.not_le.mpr hbase)
  intro r hr
  obtain ⟨i, hi⟩ := List.mem_iff_getElem?.mp hr
  obtain ⟨hlt, -⟩ := List.getElem?_eq_some_iff.mp hi
  rcases Nat.lt_or_ge i j with h | h
  · exact Or.inr ⟨hn.below i r h hi, end_le_last_base hs hd hne h hi hn.get⟩
  · have hij : i = j := by omega
    rw [hij, hn.get, Option.some.injEq] at hi
    exact Or.inl hi.symm

/-- すべての base が小さいとき、答えを誤るのは最後の module の end だけである。 -/
theorem correct_iff_of_below (hd : Disjoint runtimes) (hbase : rt.rtbase < addr) :
    (Correct runtimes addr ↔ rt.rtend ≠ addr) ∧
      (Answered runtimes addr ↔ rt.rtend ≠ addr) := by
  have hother := others_below hs hne hn hd hbase
  have hmem := List.mem_of_getElem? hn.get
  have hrt := UInt64.lt_iff_toNat_lt.mp (hne rt hmem)
  have hbase' := UInt64.lt_iff_toNat_lt.mp hbase
  have hlt : ∀ r ∈ runtimes, r.rtbase < addr := fun r hr => by
    rcases hother r hr with rfl | ⟨h, -⟩
    · exact hbase
    · exact h
  constructor
  · constructor
    · -- 終わりの address は範囲の外なのに、検索はこの module を返す
      intro hc he
      have hfind : find runtimes addr = some (some j) := by
        rw [find_eq hs hn, he, if_neg (UInt64.lt_irrefl _)]
      rcases hc with ⟨j', rt', hj', hin, hf'⟩ | ⟨-, hf'⟩
      · rw [hfind, Option.some.injEq, Option.some.injEq] at hf'
        rw [← hf', hn.get, Option.some.injEq] at hj'
        subst hj'
        have hin := RuntimeMetaData.contain_iff.mp hin
        rw [he] at hin
        omega
      · rw [hfind] at hf'
        cases hf'
    · intro hend
      refine (correct_iff hs).mpr ⟨j, rt, hn, ?_⟩
      rcases UInt64.lt_or_lt_of_ne hend with h | h
      · refine Or.inr ⟨h, fun r hr => ?_⟩
        rw [UInt64.lt_iff_toNat_lt] at h
        rw [← Bool.not_eq_true, RuntimeMetaData.contain_iff]
        rcases hother r hr with rfl | ⟨-, hle⟩
        · omega
        · omega
      · refine Or.inl (RuntimeMetaData.contain_iff.mpr ?_)
        rw [UInt64.lt_iff_toNat_lt] at h
        omega
  · constructor
    · rintro ⟨-, ⟨r, hr, he⟩ | ⟨-, h⟩⟩
      · exact absurd (hlt r hr) (by rw [he]; exact UInt64.lt_irrefl _)
      · exact h rt hmem
    · intro hend
      refine ⟨List.ne_nil_of_mem hmem, Or.inr ⟨hlt, fun r hr => ?_⟩⟩
      rcases hother r hr with rfl | ⟨-, hle⟩
      · exact hend
      · intro he
        rw [he] at hle
        omega

end Nonempty

/-- 空でない module だけなら、正しく答える address は base と end だけで決まる。 -/
theorem correct_iff_answered (hs : runtimes.Pairwise baseLe) (hd : Disjoint runtimes)
    (hne : ∀ rt ∈ runtimes, rt.rtbase < rt.rtend) :
    Correct runtimes addr ↔ Answered runtimes addr := by
  by_cases hnil : runtimes = []
  · subst hnil
    refine ⟨fun hc => ?_, fun ha => absurd rfl ha.1⟩
    obtain ⟨j, rt, hn, -⟩ := (correct_iff hs).mp hc
    have hget := hn.get
    simp at hget
  · obtain ⟨j, rt, hn⟩ := exists_nearest hs hnil addr
    by_cases hbase : rt.rtbase < addr
    · obtain ⟨h1, h2⟩ := correct_iff_of_below hs hne hn hd hbase
      rw [h1, h2]
    · obtain ⟨h1, h2⟩ := correct_iff_of_not_below hs hne hn hbase
      rw [h1, h2]

/--
module の探索が正しい条件。

範囲の重ならない module をどの順に足しても、探索が正しいのは、base が address より小さくない最初の
module（無ければ最後の module）が address を含むか、address より前で終わっていて含む module が
他にも無いときに限る。空でない module だけなら、それは address がどれかの base であるか、
すべての base より大きくてどの end でもないときである。
-/
theorem find_correct_iff (hl : Loaded mods runtimes) (hd : Disjoint mods) (addr : UInt64) :
    (Correct runtimes addr ↔ Findable runtimes addr) ∧
    ((∀ rt ∈ mods, rt.rtbase < rt.rtend) → (Correct runtimes addr ↔ Answered mods addr)) := by
  obtain ⟨hp, hs⟩ := hl.sorts
  refine ⟨correct_iff hs, fun hne => ?_⟩
  rw [← answered_perm hp]
  exact correct_iff_answered hs (hd.perm hp) fun rt hrt => hne rt (hp.mem_iff.mp hrt)

/-- 命令を持たない、範囲だけの module。 -/
def image (path : String) (rtbase rtend : UInt64) : RuntimeMetaData where
  path := path
  metadata := 0
  header := ⟨IMetaData.kMagic, IMetaData.kVersion, 48, IMetaData.kFlagARM64, 48, 0, 48, 0, 48, 0,
    48, 0⟩
  insns := []
  beyond := fun _ => ⟨0, 0⟩
  nexticache := []
  rtbase := rtbase
  rtend := rtend

/-- 本体と library を、base の大きい方から足す。 -/
def images : List RuntimeMetaData :=
  [image "libm" 0x3000 0x4000, image "app" 0x1000 0x2000]

theorem images_loaded :
    Loaded images [image "app" 0x1000 0x2000, image "libm" 0x3000 0x4000] :=
  loaded_add (loaded_add .nil "libm.aevm" (image "libm" 0x3000 0x4000)) "app.aevm"
    (image "app" 0x1000 0x2000)

theorem images_disjoint : Disjoint images := by
  refine List.pairwise_pair.mpr fun addr hc => ?_
  have h1 := RuntimeMetaData.contain_iff.mp hc.1
  have h2 := RuntimeMetaData.contain_iff.mp hc.2
  have h3 : (image "libm" 0x3000 0x4000).rtbase.toNat = 0x3000 := rfl
  have h4 : (image "app" 0x1000 0x2000).rtend.toNat = 0x2000 := rfl
  omega

theorem images_correct_base :
    Correct [image "app" 0x1000 0x2000, image "libm" 0x3000 0x4000] 0x3000 := by
  have h := (find_correct_iff images_loaded images_disjoint 0x3000).2 (by decide)
  exact h.mpr ⟨by decide, Or.inl (by decide)⟩

/-- 本体の内側の `0x1004` では、後ろの library が返る。 -/
theorem images_wrong_interior :
    Loaded images [image "app" 0x1000 0x2000, image "libm" 0x3000 0x4000] ∧ Disjoint images ∧
      ¬ Correct [image "app" 0x1000 0x2000, image "libm" 0x3000 0x4000] 0x1004 := by
  refine ⟨images_loaded, images_disjoint, ?_⟩
  have hfind : find [image "app" 0x1000 0x2000, image "libm" 0x3000 0x4000] 0x1004
      = some (some 1) := by decide
  rintro (⟨j, rt, hj, hin, hf⟩ | ⟨-, hf⟩)
  · rw [hfind, Option.some.injEq, Option.some.injEq] at hf
    subst hf
    rw [List.getElem?_cons_succ, List.getElem?_cons_zero, Option.some.injEq] at hj
    subst hj
    exact absurd hin (by decide)
  · rw [hfind] at hf
    cases hf

end InterpMetaData

end AetherVM
