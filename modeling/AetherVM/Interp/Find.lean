import AetherVM.Interp.DispatchSound

/-!
# 命令の探索はいつ正しいか（`RuntimeMetaData::find`）

`find` は、二分探索の結果が表の終わりを越えていないかを見ずに、そこの `rva` を鍵と比べる。鍵は 64 bit の差を
32 bit に切り詰めたものである。表にある命令はいつも見つかるが、無い命令の結果は、切り詰めた鍵と、表の
すぐ後ろにある byte に依る。
-/

namespace AetherVM

open Infra IMetaData InterpMetaData

namespace RuntimeMetaData

variable (rt : RuntimeMetaData) (addr : UInt64)

/-- 表のすぐ後ろの、`find` が最後に見る番号。空の表では、0 番が鍵より小さければ 1 番である。 -/
def behind : Nat :=
  if rt.insns = [] then (if (rt.beyond 0).rva < rt.key addr then 1 else 0) else rt.insns.length

/-- `find` が、差がちょうど `rva` に等しい命令を返し、無ければ `nullptr` を返すこと。 -/
def FindsExactly : Prop := ∀ k, rt.find addr = some k ↔ EntryAt rt addr k

/--
差がちょうど `rva` に等しい命令があるか、切り詰めた鍵に等しい命令も無く、どの命令も鍵より小さければ表の
すぐ後ろも鍵に等しくないこと。
-/
def Searchable : Prop :=
  (∃ k, EntryAt rt addr k) ∨
    (∀ e ∈ rt.insns, e.rva ≠ rt.key addr) ∧
      ((∀ e ∈ rt.insns, e.rva < rt.key addr) → (rt.beyond (rt.behind addr)).rva ≠ rt.key addr)

variable {rt addr} {k : Nat}

theorem insn_of_le (h : rt.insns.length ≤ k) : rt.insn k = rt.beyond k := by
  rw [insn, List.getElem?_eq_none h, Option.getD_none]

/-- 二分探索は、鍵より小さくない命令か、どの命令も鍵より小さいときの表のすぐ後ろに着く。 -/
theorem found_cases (hinc : rt.Increasing) (addr : UInt64) :
    (∃ e, rt.insns[binarySearch (rt.insnLt addr) rt.insns.length]? = some e ∧
        ¬ e.rva < rt.key addr) ∨
      (∀ e ∈ rt.insns, e.rva < rt.key addr) ∧
        binarySearch (rt.insnLt addr) rt.insns.length = rt.behind addr ∧
        rt.insns.length ≤ rt.behind addr := by
  by_cases hnil : rt.insns = []
  · have hlt : rt.insnLt addr 0 = decide ((rt.beyond 0).rva < rt.key addr) := by
      rw [insnLt, insn_of_le (by simp [hnil])]
    refine .inr ⟨by simp [hnil], ?_, by simp [hnil]⟩
    rw [behind, if_pos hnil, hnil]
    show (if rt.insnLt addr 0 = true then 0 + 1 else 0) = _
    rw [hlt]
    simp only [decide_eq_true_eq, Nat.zero_add]
  · have hpos : 0 < rt.insns.length := List.length_pos_iff.mpr hnil
    have hsplit : SplitAt (rt.insnLt addr) rt.insns.length := splitAt_insnLt hinc
    rcases Nat.lt_or_eq_of_le (binarySearch_le hpos) with hlt | heq
    · have hget := List.getElem?_eq_getElem hlt
      have hno := not_lt_of_binarySearch_le hsplit hpos (Nat.le_refl _) hlt
      refine .inl ⟨_, hget, fun hc => ?_⟩
      rw [UInt32.lt_iff_toNat_lt, ← insnLt_iff hget, hno] at hc
      cases hc
    · refine .inr ⟨fun e he => ?_, ?_, ?_⟩
      · obtain ⟨i, hi⟩ := List.mem_iff_getElem?.mp he
        have hlen := (List.getElem?_eq_some_iff.mp hi).1
        rw [UInt32.lt_iff_toNat_lt, ← insnLt_iff hi]
        exact lt_of_lt_binarySearch hsplit hpos (by rwa [heq])
      · rw [heq, behind, if_neg hnil]
      · rw [behind, if_neg hnil]

/-- 何も見つからないのは、鍵に等しい命令が無く、表のすぐ後ろとも一致しないときに限る。 -/
theorem find_eq_none_iff (hinc : rt.Increasing) : rt.find addr = none ↔
    (∀ e ∈ rt.insns, e.rva ≠ rt.key addr) ∧
      ((∀ e ∈ rt.insns, e.rva < rt.key addr) →
        (rt.beyond (rt.behind addr)).rva ≠ rt.key addr) := by
  have hfind : rt.find addr = none ↔
      (rt.insn (binarySearch (rt.insnLt addr) rt.insns.length)).rva ≠ rt.key addr := by
    simp [find]
  constructor
  · intro hnone
    refine ⟨fun e he hkey => ?_, fun hall => ?_⟩
    · obtain ⟨i, hi⟩ := List.mem_iff_getElem?.mp he
      rw [find_eq_of_get hinc hi hkey] at hnone
      cases hnone
    · rw [hfind] at hnone
      rcases found_cases hinc addr with ⟨e, he, hle⟩ | ⟨-, heq, hbehind⟩
      · exact absurd (hall e (List.mem_of_getElem? he)) hle
      · rwa [heq, insn_of_le hbehind] at hnone
  · rintro ⟨hne, hbeyond⟩
    rw [hfind]
    rcases found_cases hinc addr with ⟨e, he, -⟩ | ⟨hall, heq, hbehind⟩
    · rw [insn_eq he]
      exact hne e (List.mem_of_getElem? he)
    · rw [heq, insn_of_le hbehind]
      exact hbeyond hall

/--
`rva` が狭義の昇順のどの表（空でもよい）、その後ろのどの byte、どの base と address でも、`find` が
正しいのは、次の条件のときに限る。差がちょうど `rva` に等しい命令があるか、32 bit に切り詰めた差に等しい
命令が無く、どの命令もそれより小さいなら表のすぐ後ろの entry もそれに等しくない。
-/
theorem findsExactly_iff (hinc : rt.Increasing) (addr : UInt64) :
    rt.FindsExactly addr ↔ rt.Searchable addr := by
  constructor
  · intro h
    by_cases hentry : ∃ k, EntryAt rt addr k
    · exact .inl hentry
    · refine .inr ((find_eq_none_iff hinc).mp ?_)
      cases hfind : rt.find addr with
      | none => rfl
      | some k => exact absurd ⟨k, (h k).mp hfind⟩ hentry
  · rintro (⟨k₀, hk₀⟩ | hmiss) k
    · rw [find_of_entryAt hinc hk₀, Option.some.injEq]
      constructor
      · rintro rfl
        exact hk₀
      · exact fun hk => hk₀.unique hinc hk
    · rw [(find_eq_none_iff hinc).mpr hmiss]
      refine iff_of_false nofun ?_
      rintro ⟨e, he, hrva⟩
      exact hmiss.1 e (List.mem_of_getElem? he) (EntryAt.rva_eq_key hrva)

/-! ## 例 -/

/-- 三つの命令の後ろに、続きのように見える byte がある表。 -/
def sampleTail : RuntimeMetaData :=
  { image "app" 0x1000 0x2000 with
    insns := [⟨0, 0⟩, ⟨4, 8⟩, ⟨8, 16⟩], beyond := fun _ => ⟨12, 0⟩ }

theorem sampleTail_increasing : sampleTail.Increasing := by
  show sampleTail.insns.Pairwise fun a b => a.rva < b.rva
  decide

theorem sampleTail_findsExactly : sampleTail.FindsExactly 0x1002 :=
  (findsExactly_iff sampleTail_increasing 0x1002).mpr (.inr ⟨by decide, by decide⟩)

/-- 表の後ろの byte も、`2 ^ 32` だけ離れた address も、命令として見つかる。 -/
theorem sampleTail_not_findsExactly :
    sampleTail.Increasing ∧ ¬ sampleTail.FindsExactly 0x100c ∧
      ¬ sampleTail.FindsExactly 0x100001004 := by
  refine ⟨sampleTail_increasing, fun h => ?_, fun h => ?_⟩
  · obtain ⟨e, he, -⟩ := (h 3).mp (by decide)
    cases he
  · obtain ⟨e, he, hrva⟩ := (h 1).mp (by decide)
    obtain rfl := Option.some.inj he
    revert hrva
    decide

end RuntimeMetaData

end AetherVM
