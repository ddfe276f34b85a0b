import Mathlib.Data.List.Nodup
import AetherVM.Engine.Vm

/-!
# lift の session（`src/Lifter.cpp` の `transform` と `apply`）

`transform` は、命令の元の byte 列を key とする handler を集合に入れ、lift した関数に名前を付ける。名前は、callback が
書き換えた後の byte 列から作る。名前から handler を引く表 `name_handlers` は、先に入ったものを残す。

`apply` は、できた object の symbol の名前で handler を引き、`entry` を書く。二つの命令が同じ byte 列に書き換わると、

* 表には先の handler だけが残る。
* LLVM は後の関数の名前に `.` と番号を足すので、その symbol は表に無い。

したがって、後の handler の `entry` は `abort` のままになる。
-/

namespace AetherVM

open Infra

namespace Lifter

/-- `HandlerDynamic` の `entry`。`code` は実行できる page の中の address で、`abort` の address ではない。 -/
inductive Entry where
  | abort
  | code (addr : Nat)
deriving DecidableEq, Repr

/-- `HandlerDynamic`。opcode は 16 byte に揃える。 -/
structure HandlerDynamic where
  opc16 : Bytes
  entry : Entry
deriving DecidableEq

/--
module に足した関数。`bytes` は名前を作った byte 列である。Remill の知らない命令では、`LiftAfter` の callback が
event の opcode をさらに書き換えると、置かれる code はその byte 列になるが、名前は変わらないので扱わない。
-/
structure LiftedFunction where
  name : String
  bytes : Bytes
deriving DecidableEq

/-- `placeholder` の key。残りは 0 である。 -/
def opcodeKey16 (opcode : Bytes) : Bytes := opcode ++ zeros (16 - opcode.length)

/-! ## 名前 -/

def dynPrefix : String := "aethervm_"

/-- `{:02x}`。 -/
def hexByte (b : UInt8) : List Char :=
  [Nat.digitChar (b.toNat / 16), Nat.digitChar (b.toNat % 16)]

/-- lift した関数の名前。 -/
def dynName (opcode : Bytes) : String := dynPrefix ++ String.ofList (opcode.flatMap hexByte)

def isxdigit (c : Char) : Bool :=
  ('0' ≤ c && c ≤ '9') || ('a' ≤ c && c ≤ 'f') || ('A' ≤ c && c ≤ 'F')

/-- `apply` が handler の名前とみなすもの。 -/
def isDyn (name : String) : Bool :=
  dynPrefix.toList.isPrefixOf name.toList &&
    ((name.toList.drop dynPrefix.toList.length).head?).any isxdigit

/--
LLVM の関数の名前の付け方。空いていればそのまま、そうでなければ `.` と番号を足す。第一引数は、
module で使われている名前である。
-/
structure UniqueNames (uniqueName : List String → String → String) : Prop where
  free : ∀ used name, name ∉ used → uniqueName used name = name
  renamed : ∀ used name, name ∈ used → ∃ n : Nat, uniqueName used name = name ++ "." ++ toString n

theorem toList_dynName (opcode : Bytes) :
    (dynName opcode).toList = dynPrefix.toList ++ opcode.flatMap hexByte := by
  rw [dynName, String.toList_append, String.toList_ofList]

theorem digitChar_inj : ∀ a b : Fin 16, Nat.digitChar a = Nat.digitChar b → a = b := by decide

theorem digitChar_hex : ∀ a : Fin 16,
    isxdigit (Nat.digitChar a) = true ∧ Nat.digitChar a ≠ '.' := by
  decide

theorem byte_div_lt (b : UInt8) : b.toNat / 16 < 16 := by
  have := UInt8.toNat_lt_size b
  simp only [UInt8.size] at this
  omega

theorem hexByte_inj {a b : UInt8} (h : hexByte a = hexByte b) : a = b := by
  have hcons := List.cons.inj h
  have hhi := digitChar_inj ⟨_, byte_div_lt a⟩ ⟨_, byte_div_lt b⟩ hcons.1
  have hlo := digitChar_inj ⟨_, Nat.mod_lt a.toNat (by decide)⟩ ⟨_, Nat.mod_lt b.toNat (by decide)⟩
    (List.cons.inj hcons.2).1
  have hhi : a.toNat / 16 = b.toNat / 16 := congrArg Fin.val hhi
  have hlo : a.toNat % 16 = b.toNat % 16 := congrArg Fin.val hlo
  exact UInt8.toNat_inj.mp (by omega)

theorem flatMap_hexByte_inj : ∀ {as bs : Bytes}, as.flatMap hexByte = bs.flatMap hexByte → as = bs
  | [], [], _ => rfl
  | [], _ :: _, h => by cases h
  | _ :: _, [], h => by cases h
  | a :: as, b :: bs, h => by
    rw [List.flatMap_cons, List.flatMap_cons] at h
    obtain ⟨hab, hrest⟩ := List.append_inj h rfl
    rw [hexByte_inj hab, flatMap_hexByte_inj hrest]

theorem dynName_inj {as bs : Bytes} (h : dynName as = dynName bs) : as = bs := by
  have htoList := congrArg String.toList h
  rw [toList_dynName, toList_dynName] at htoList
  exact flatMap_hexByte_inj (List.append_cancel_left htoList)

/-- 空の byte 列の名前だけは、handler の名前とみなされない。 -/
theorem isDyn_dynName (opcode : Bytes) : isDyn (dynName opcode) = true ↔ opcode ≠ [] := by
  have hprefix : dynPrefix.toList.isPrefixOf (dynPrefix.toList ++ opcode.flatMap hexByte) = true :=
    List.isPrefixOf_iff_prefix.mpr (List.prefix_append _ _)
  rw [isDyn, toList_dynName, hprefix, Bool.true_and, List.drop_left]
  cases opcode with
  | nil => simp
  | cons b rest => simp [hexByte, (digitChar_hex ⟨_, byte_div_lt b⟩).1]

/-- LLVM の付けた番号のある名前は、どの byte 列の名前でもない。 -/
theorem renamed_ne_dynName (name : String) (n : Nat) (opcode : Bytes) :
    name ++ "." ++ toString n ≠ dynName opcode := by
  intro h
  have hdot : '.' ∈ (name ++ "." ++ toString n).toList := by
    rw [String.toList_append, String.toList_append]
    exact List.mem_append_left _ (List.mem_append_right _ List.mem_cons_self)
  rw [h, toList_dynName, List.mem_append, List.mem_flatMap] at hdot
  rcases hdot with hdot | ⟨b, -, hdot⟩
  · exact absurd hdot (by decide)
  · simp only [hexByte, List.mem_cons, List.not_mem_nil, or_false] at hdot
    rcases hdot with hdot | hdot
    · exact (digitChar_hex ⟨_, byte_div_lt b⟩).2 hdot.symm
    · exact (digitChar_hex ⟨_, Nat.mod_lt _ (by decide)⟩).2 hdot.symm

/-! ## transform -/

/-- 一つの `Lifter` の session。`nameHandlers` の pointer は、指す handler の key で表す。 -/
structure Session (σ : Type) where
  world : σ
  handlers : List HandlerDynamic
  nameHandlers : List (String × Bytes)
  functions : List LiftedFunction

/-- `std::set` の検索。 -/
def findHandler (handlers : List HandlerDynamic) (key : Bytes) : Option HandlerDynamic :=
  handlers.find? fun h => h.opc16 = key

/-- `std::map::insert`。同じ名前があれば何もしない。 -/
def insertName (names : List (String × Bytes)) (name : String) (key : Bytes) :
    List (String × Bytes) :=
  match names.lookup name with
  | some _ => names
  | none => (name, key) :: names

variable {σ γ : Type}

/--
`LiftBefore` の event。lift する byte 列と、event に残る byte 列を返す。`Processed` なら、callback の書いた
byte 列を lift する。
-/
def liftBefore (e : Engine σ γ) (w : σ) (opcode : Bytes) (addr : Nat) : Bytes × Bytes × σ :=
  let h := handleEvent e.callbacks 0 w ⟨.liftBefore, addr, .lift opcode ""⟩
  let bytes := match h.result, h.event.body with
    | .processed, .lift custom _ => custom
    | _, _ => opcode
  (bytes, h.event.opcode, h.world)

/-- `LiftAfter` の event。`opcode` は、`LiftBefore` の後の event に残る byte 列である。 -/
def liftAfter (e : Engine σ γ) (addr : Nat) : Bytes → List String → σ → σ
  | _, [], w => w
  | opcode, name :: rest, w =>
    let h := handleEvent e.callbacks 0 w ⟨.liftAfter, addr, .lift opcode name⟩
    liftAfter e addr h.event.opcode rest h.world

section Transform

variable (e : Engine σ γ) (uniqueName : List String → String → String) (base : List String)

/--
`Lifter::transform`。`base` は、session の前から module にある関数の名前である。trampoline の名前は handler の
名前とみなされないので、書かない。
-/
def transform (s : Session σ) (opcode : Bytes) (addr : Nat) : Session σ :=
  let key := opcodeKey16 opcode
  match findHandler s.handlers key with
  | some _ => s
  | none =>
    let (bytes, kept, w) := liftBefore e s.world opcode addr
    let name := dynName bytes
    { world := liftAfter e addr kept (Vm.liftAfterNames e (e.remill bytes)) w
      handlers := ⟨key, .abort⟩ :: s.handlers
      nameHandlers := insertName s.nameHandlers name key
      functions := ⟨uniqueName (base ++ s.functions.map LiftedFunction.name) name, bytes⟩
        :: s.functions }

/-- session を始める。`handlers` は前の session のものを引き継ぐ。 -/
def start (w : σ) (handlers : List HandlerDynamic) : Session σ := ⟨w, handlers, [], []⟩

/-- `transform` を順に呼ぶ。 -/
def transforms (calls : List (Bytes × Nat)) (s : Session σ) : Session σ :=
  calls.foldl (fun s call => transform e uniqueName base s call.1 call.2) s

end Transform

/--
session で新しく入る handler の key と、その命令の byte 列。callback の答えだけで決まる。`keys` はすでにある key である。
-/
def patches (e : Engine σ γ) : List Bytes → σ → List (Bytes × Nat) → List (Bytes × Bytes)
  | _, _, [] => []
  | keys, w, (opcode, addr) :: rest =>
    let key := opcodeKey16 opcode
    if keys.contains key then patches e keys w rest
    else
      let (bytes, kept, w) := liftBefore e w opcode addr
      (key, bytes) :: patches e (key :: keys)
        (liftAfter e addr kept (Vm.liftAfterNames e (e.remill bytes)) w) rest

/-! ## apply -/

/-- object の symbol。`hidden` は、定義の無いものなど、`apply` が飛ばすものである。 -/
structure ObjSymbol where
  name : String
  addr : Nat
  function : Bool
  hidden : Bool
deriving DecidableEq

/-- 先頭の `_` を除いた名前。 -/
def ObjSymbol.stripped (sym : ObjSymbol) : String :=
  match sym.name.toList with
  | '_' :: rest => String.ofList rest
  | _ => sym.name

/-- `found->second->entry` への代入。 -/
def setEntry (handlers : List HandlerDynamic) (key : Bytes) (entry : Entry) :
    List HandlerDynamic :=
  handlers.map fun h => if h.opc16 = key then { h with entry := entry } else h

/-- `apply` の loop の一回。`pagestart` は code を写した page、`textaddr` は section の address である。 -/
def applySymbol (pagestart textaddr : Nat) (s : Session σ) (sym : ObjSymbol) : Session σ :=
  if sym.function && !sym.hidden && isDyn sym.stripped then
    match s.nameHandlers.lookup sym.stripped with
    | none => s
    | some key =>
      { s with handlers := setEntry s.handlers key (.code (pagestart + sym.addr - textaddr)) }
  else s

/-- `Lifter::apply` の、symbol を読む部分。 -/
def apply (pagestart textaddr : Nat) (symbols : List ObjSymbol) (s : Session σ) : Session σ :=
  symbols.foldl (applySymbol pagestart textaddr) s

/-- object が、lift したどの関数の symbol も持つこと。名前ごとの address は一つである。 -/
structure Emits (symbols : List ObjSymbol) (functions : List LiftedFunction) : Prop where
  defined : ∀ f ∈ functions, ∃ sym ∈ symbols,
    sym.function = true ∧ sym.hidden = false ∧ sym.stripped = f.name
  unique : ∀ sym ∈ symbols, ∀ sym' ∈ symbols, sym.stripped = sym'.stripped → sym.addr = sym'.addr

/-- `key` の handler の `entry` が、`bytes` を lift した関数の code であること。 -/
def Resolved (pagestart textaddr : Nat) (symbols : List ObjSymbol) (s : Session σ)
    (key bytes : Bytes) : Prop :=
  ∃ f ∈ s.functions, f.bytes = bytes ∧ ∃ sym ∈ symbols, sym.stripped = f.name ∧
    findHandler (apply pagestart textaddr symbols s).handlers key
      = some ⟨key, .code (pagestart + sym.addr - textaddr)⟩

/-! ## session の不変条件 -/

variable {e : Engine σ γ} {uniqueName : List String → String → String} {base : List String}
  {s : Session σ} {old handlers : List HandlerDynamic} {done : List (Bytes × Bytes)}
  {key bytes : Bytes} {name : String}

/-- `done` の handler を入れた session の状態。 -/
structure Session.Inv (old : List HandlerDynamic) (done : List (Bytes × Bytes)) (s : Session σ) :
    Prop where
  handlers : s.handlers = done.map (fun p => ⟨p.1, .abort⟩) ++ old
  nodup : (done.map Prod.fst).Nodup
  named : ∀ name key, s.nameHandlers.lookup name = some key →
    ∃ bytes, name = dynName bytes ∧ (key, bytes) ∈ done
  registered : ∀ p ∈ done, ∃ key, s.nameHandlers.lookup (dynName p.2) = some key
  function : ∀ p ∈ done, p.2 ≠ [] → ⟨dynName p.2, p.2⟩ ∈ s.functions
  names : ∀ f ∈ s.functions, (∃ key, f.name = dynName f.bytes ∧ (key, f.bytes) ∈ done) ∨
    ∃ (bytes : Bytes) (n : Nat), f.name = dynName bytes ++ "." ++ toString n

theorem lookup_insertName (names : List (String × Bytes)) (name name' : String) (key : Bytes) :
    (insertName names name key).lookup name' = if name' = name
      then some ((names.lookup name).getD key) else names.lookup name' := by
  unfold insertName
  split
  · next key' hkey =>
    split
    · next heq => rw [heq, hkey, Option.getD_some]
    · rfl
  · next hnone =>
    rw [List.lookup_cons]
    split
    · next heq => rw [beq_iff_eq.mp heq, if_pos rfl, hnone, Option.getD_none]
    · next hne => rw [if_neg (beq_eq_false_iff_ne.mp hne)]

theorem Session.Inv.empty (w : σ) (old : List HandlerDynamic) :
    (start w old).Inv old [] where
  handlers := rfl
  nodup := List.nodup_nil
  named := fun _ _ h => by cases h
  registered := nofun
  function := nofun
  names := nofun

/-- 新しい handler を一つ入れる。 -/
theorem Session.Inv.insert (hu : UniqueNames uniqueName) (hbase : ∀ n ∈ base, isDyn n = false)
    (h : s.Inv old done) (hkey : key ∉ done.map Prod.fst) (w : σ) (bytes : Bytes) :
    Session.Inv old ((key, bytes) :: done)
      { world := w
        handlers := ⟨key, .abort⟩ :: s.handlers
        nameHandlers := insertName s.nameHandlers (dynName bytes) key
        functions := ⟨uniqueName (base ++ s.functions.map LiftedFunction.name) (dynName bytes),
          bytes⟩ :: s.functions } where
  handlers := by
    rw [h.handlers]
    rfl
  nodup := List.nodup_cons.mpr ⟨hkey, h.nodup⟩
  named := by
    intro name key' hlookup
    rw [lookup_insertName] at hlookup
    split at hlookup
    · next heq =>
      cases hold : s.nameHandlers.lookup (dynName bytes) with
      | none =>
        rw [hold] at hlookup
        cases hlookup
        exact ⟨bytes, heq, List.mem_cons_self⟩
      | some key'' =>
        rw [hold] at hlookup
        cases hlookup
        obtain ⟨bytes', hname, hmem⟩ := h.named _ _ hold
        exact ⟨bytes', heq.trans hname, List.mem_cons_of_mem _ hmem⟩
    · obtain ⟨bytes', hname, hmem⟩ := h.named _ _ hlookup
      exact ⟨bytes', hname, List.mem_cons_of_mem _ hmem⟩
  registered := by
    intro p hp
    rw [lookup_insertName]
    split
    · exact ⟨_, rfl⟩
    · next hne =>
      rcases List.mem_cons.mp hp with rfl | hp
      · exact absurd rfl hne
      · exact h.registered p hp
  function := by
    intro p hp hne
    rcases List.mem_cons.mp hp with rfl | hp
    · -- 名前が使われていれば、先に入った handler の関数である
      by_cases hused : dynName bytes ∈ base ++ s.functions.map LiftedFunction.name
      · rcases List.mem_append.mp hused with hused | hused
        · have hdyn := hbase _ hused
          rw [(isDyn_dynName bytes).mpr hne] at hdyn
          cases hdyn
        · obtain ⟨f, hf, hname⟩ := List.mem_map.mp hused
          rcases h.names f hf with ⟨key', hname', hmem⟩ | ⟨bytes', n, hname'⟩
          · have hbytes := dynName_inj (hname'.symm.trans hname)
            rw [hbytes] at hmem
            exact List.mem_cons_of_mem _ (h.function (key', bytes) hmem hne)
          · exact absurd (hname'.symm.trans hname) (renamed_ne_dynName _ n bytes)
      · rw [hu.free _ _ hused]
        exact List.mem_cons_self
    · exact List.mem_cons_of_mem _ (h.function p hp hne)
  names := by
    intro f hf
    rcases List.mem_cons.mp hf with rfl | hf
    · by_cases hused : dynName bytes ∈ base ++ s.functions.map LiftedFunction.name
      · obtain ⟨n, hn⟩ := hu.renamed _ _ hused
        exact .inr ⟨bytes, n, hn⟩
      · exact .inl ⟨key, hu.free _ _ hused, List.mem_cons_self⟩
    · refine (h.names f hf).imp_left fun ⟨key', hname, hmem⟩ => ?_
      exact ⟨key', hname, List.mem_cons_of_mem _ hmem⟩

theorem findHandler_eq_none : findHandler handlers key = none ↔
    key ∉ handlers.map HandlerDynamic.opc16 := by
  simp [findHandler, List.find?_eq_none]

/-- `transform` を順に呼んだ後の状態。 -/
theorem inv_transforms (hu : UniqueNames uniqueName) (hbase : ∀ n ∈ base, isDyn n = false)
    (calls : List (Bytes × Nat)) {s : Session σ} {done : List (Bytes × Bytes)}
    (h : s.Inv old done) :
    (transforms e uniqueName base calls s).Inv old
      ((patches e (s.handlers.map HandlerDynamic.opc16) s.world calls).reverse ++ done) := by
  induction calls generalizing s done with
  | nil => exact h
  | cons call rest ih =>
    obtain ⟨opcode, addr⟩ := call
    rw [transforms, List.foldl_cons, patches]
    by_cases hkey : opcodeKey16 opcode ∈ s.handlers.map HandlerDynamic.opc16
    · have hsame : transform e uniqueName base s opcode addr = s := by
        cases hfind : findHandler s.handlers (opcodeKey16 opcode) with
        | none => exact absurd hkey (findHandler_eq_none.mp hfind)
        | some _ => rw [transform, hfind]
      simp only [if_pos (List.contains_iff_mem.mpr hkey), hsame]
      exact ih h
    · have hdone : opcodeKey16 opcode ∉ done.map Prod.fst := by
        intro hmem
        obtain ⟨p, hp, hp'⟩ := List.mem_map.mp hmem
        refine hkey (List.mem_map.mpr ⟨⟨p.1, .abort⟩, ?_, hp'⟩)
        rw [h.handlers]
        exact List.mem_append_left _ (List.mem_map.mpr ⟨p, hp, rfl⟩)
      have hnext := h.insert hu hbase hdone
        (liftAfter e addr (liftBefore e s.world opcode addr).2.1
          (Vm.liftAfterNames e (e.remill (liftBefore e s.world opcode addr).1))
          (liftBefore e s.world opcode addr).2.2)
        (liftBefore e s.world opcode addr).1
      have hrec := ih hnext
      simp only [if_neg (mt List.contains_iff_mem.mp hkey), List.reverse_cons, List.append_assoc,
        List.singleton_append]
      rw [transform, findHandler_eq_none.mpr hkey]
      exact hrec

/-! ## apply の効果 -/

variable {pagestart textaddr : Nat} {symbols : List ObjSymbol} {entry : Entry}

/-- symbol が `key` の handler の `entry` を書くこと。 -/
def Hits (names : List (String × Bytes)) (key : Bytes) (sym : ObjSymbol) : Prop :=
  sym.function = true ∧ sym.hidden = false ∧ isDyn sym.stripped = true ∧
    names.lookup sym.stripped = some key

theorem findHandler_setEntry (handlers : List HandlerDynamic) (key key' : Bytes) (entry : Entry) :
    findHandler (setEntry handlers key' entry) key = (findHandler handlers key).map fun h =>
      if h.opc16 = key' then { h with entry := entry } else h := by
  have hpred : ((fun h : HandlerDynamic => decide (h.opc16 = key)) ∘ fun h =>
      if h.opc16 = key' then { h with entry := entry } else h)
        = fun h : HandlerDynamic => decide (h.opc16 = key) := by
    funext h
    simp only [Function.comp_apply]
    split <;> rfl
  rw [findHandler, setEntry, List.find?_map, hpred]
  rfl

/-- symbol 一つの効果。 -/
theorem findHandler_applySymbol {sym : ObjSymbol}
    (h : findHandler s.handlers key = some ⟨key, entry⟩) :
    (Hits s.nameHandlers key sym → findHandler (applySymbol pagestart textaddr s sym).handlers key
      = some ⟨key, .code (pagestart + sym.addr - textaddr)⟩) ∧
    (¬ Hits s.nameHandlers key sym →
      findHandler (applySymbol pagestart textaddr s sym).handlers key = some ⟨key, entry⟩) := by
  unfold applySymbol
  split
  · next hdyn =>
    simp only [Bool.and_eq_true, Bool.not_eq_true'] at hdyn
    split
    · next hnone =>
      refine ⟨fun hit => ?_, fun _ => h⟩
      rw [hit.2.2.2] at hnone
      cases hnone
    · next key' hkey' =>
      rw [findHandler_setEntry, h, Option.map_some]
      refine ⟨fun hit => ?_, fun hmiss => ?_⟩
      · rw [hit.2.2.2] at hkey'
        cases hkey'
        rw [if_pos rfl]
      · rw [if_neg]
        rintro rfl
        exact hmiss ⟨hdyn.1.1, hdyn.1.2, hdyn.2, hkey'⟩
  · next hskip =>
    refine ⟨fun hit => absurd ?_ hskip, fun _ => h⟩
    simp only [hit.1, hit.2.1, hit.2.2.1, Bool.not_false, Bool.and_self]

theorem nameHandlers_applySymbol (sym : ObjSymbol) :
    (applySymbol pagestart textaddr s sym).nameHandlers = s.nameHandlers := by
  unfold applySymbol
  split
  · split <;> rfl
  · rfl

/-- どの symbol も書かなければ、`entry` はそのままである。 -/
theorem findHandler_apply_of_not_hits {s : Session σ}
    (hmiss : ∀ sym ∈ symbols, ¬ Hits s.nameHandlers key sym)
    (h : findHandler s.handlers key = some ⟨key, entry⟩) :
    findHandler (apply pagestart textaddr symbols s).handlers key = some ⟨key, entry⟩ := by
  induction symbols generalizing s with
  | nil => exact h
  | cons sym rest ih =>
    refine ih (fun sym' hsym' => ?_)
      ((findHandler_applySymbol h).2 (hmiss sym List.mem_cons_self))
    rw [nameHandlers_applySymbol]
    exact hmiss sym' (List.mem_cons_of_mem _ hsym')

/-- 書く symbol の address がどれも `addr` なら、`entry` はその code になる。 -/
theorem findHandler_apply_of_hits {s : Session σ} {addr : Nat}
    (haddr : ∀ sym ∈ symbols, Hits s.nameHandlers key sym → sym.addr = addr)
    (h : findHandler s.handlers key = some ⟨key, entry⟩)
    (hit : entry = .code (pagestart + addr - textaddr) ∨
      ∃ sym ∈ symbols, Hits s.nameHandlers key sym) :
    findHandler (apply pagestart textaddr symbols s).handlers key
      = some ⟨key, .code (pagestart + addr - textaddr)⟩ := by
  induction symbols generalizing s entry with
  | nil =>
    rcases hit with rfl | ⟨sym, hsym, -⟩
    · exact h
    · cases hsym
  | cons sym rest ih =>
    have hnames : (applySymbol pagestart textaddr s sym).nameHandlers = s.nameHandlers :=
      nameHandlers_applySymbol sym
    have haddr' : ∀ sym' ∈ rest, Hits (applySymbol pagestart textaddr s sym).nameHandlers key sym' →
        sym'.addr = addr := by
      rw [hnames]
      exact fun sym' hsym' => haddr sym' (List.mem_cons_of_mem _ hsym')
    by_cases hsym : Hits s.nameHandlers key sym
    · have hwrite : findHandler (applySymbol pagestart textaddr s sym).handlers key =
          some ⟨key, .code (pagestart + sym.addr - textaddr)⟩ := (findHandler_applySymbol h).1 hsym
      rw [haddr sym List.mem_cons_self hsym] at hwrite
      exact ih haddr' hwrite (.inl rfl)
    · refine ih haddr' ((findHandler_applySymbol h).2 hsym) (hit.imp_right ?_)
      rintro ⟨sym', hsym', hhit⟩
      rcases List.mem_cons.mp hsym' with rfl | hsym'
      · exact absurd hhit hsym
      · exact ⟨sym', hsym', hnames ▸ hhit⟩

/-! ## session の結果 -/

theorem Session.Inv.find (h : s.Inv old done) {p : Bytes × Bytes} (hp : p ∈ done) :
    findHandler s.handlers p.1 = some ⟨p.1, .abort⟩ := by
  have hall : ∀ done : List (Bytes × Bytes), p ∈ done →
      findHandler (done.map (fun p => (⟨p.1, .abort⟩ : HandlerDynamic)) ++ old) p.1
        = some ⟨p.1, .abort⟩ := by
    intro done hp
    induction done with
    | nil => cases hp
    | cons q rest ih =>
      rw [findHandler, List.map_cons, List.cons_append, List.find?_cons]
      by_cases hq : q.1 = p.1
      · simp only [hq, decide_true]
      · rw [decide_eq_false hq]
        exact ih ((List.mem_cons.mp hp).resolve_left fun heq => hq (congrArg Prod.fst heq.symm))
  rw [h.handlers]
  exact hall done hp

/-- 名前の表から引ける handler を書く symbol は、その handler の byte 列の名前を持つ。 -/
theorem Session.Inv.stripped (h : s.Inv old done) {p : Bytes × Bytes} (hp : p ∈ done)
    {sym : ObjSymbol} (hit : Hits s.nameHandlers p.1 sym) : sym.stripped = dynName p.2 := by
  obtain ⟨bytes, hname, hmem⟩ := h.named _ _ hit.2.2.2
  have hbytes : bytes = p.2 := congrArg Prod.snd (List.inj_on_of_nodup_map h.nodup hmem hp rfl)
  rw [hname, hbytes]

/-- handler の `entry` が決まるのは、byte 列が空でなく、名前の表がその handler を指すときに限る。 -/
theorem Session.Inv.resolved_iff (h : s.Inv old done) (hsym : Emits symbols s.functions)
    {p : Bytes × Bytes} (hp : p ∈ done) : Resolved pagestart textaddr symbols s p.1 p.2 ↔
      p.2 ≠ [] ∧ s.nameHandlers.lookup (dynName p.2) = some p.1 := by
  constructor
  · rintro ⟨f, -, -, sym, -, -, hfind⟩
    have hhit : ∃ sym ∈ symbols, Hits s.nameHandlers p.1 sym := by
      by_contra hmiss
      have hmiss : ∀ sym ∈ symbols, ¬ Hits s.nameHandlers p.1 sym :=
        fun sym hmem hhit => hmiss ⟨sym, hmem, hhit⟩
      rw [findHandler_apply_of_not_hits hmiss (h.find hp)] at hfind
      cases hfind
    obtain ⟨sym, -, hhit⟩ := hhit
    have hname := h.stripped hp hhit
    have hdyn := hhit.2.2.1
    have hlookup := hhit.2.2.2
    rw [hname] at hdyn hlookup
    exact ⟨(isDyn_dynName _).mp hdyn, hlookup⟩
  · rintro ⟨hne, hlookup⟩
    obtain ⟨sym, hmem, hfun, hhidden, hname⟩ := hsym.defined _ (h.function p hp hne)
    have hhit : Hits s.nameHandlers p.1 sym := by
      refine ⟨hfun, hhidden, ?_, ?_⟩
      · rw [hname]
        exact (isDyn_dynName _).mpr hne
      · rw [hname]
        exact hlookup
    refine ⟨_, h.function p hp hne, rfl, sym, hmem, hname, ?_⟩
    refine findHandler_apply_of_hits (fun sym' hmem' hhit' => ?_) (h.find hp)
      (.inr ⟨sym, hmem, hhit⟩)
    exact hsym.unique sym' hmem' sym hmem ((h.stripped hp hhit').trans hname.symm)

/--
session の後、入れたどの handler の `entry` も決まるのは、書き換えた後の byte 列がどれも空でなく、互いに異なるときに
限る。
-/
theorem session_resolved_iff (hu : UniqueNames uniqueName) (hbase : ∀ n ∈ base, isDyn n = false)
    (e : Engine σ γ) (w : σ) (old : List HandlerDynamic) (calls : List (Bytes × Nat))
    (hsym : Emits symbols (transforms e uniqueName base calls (start w old)).functions)
    (pagestart textaddr : Nat) :
    (∀ p ∈ patches e (old.map HandlerDynamic.opc16) w calls,
      Resolved pagestart textaddr symbols (transforms e uniqueName base calls (start w old))
        p.1 p.2) ↔
    ((patches e (old.map HandlerDynamic.opc16) w calls).map Prod.snd).Nodup ∧
      [] ∉ (patches e (old.map HandlerDynamic.opc16) w calls).map Prod.snd := by
  have hinv := inv_transforms (e := e) hu hbase calls (Session.Inv.empty w old)
  rw [List.append_nil] at hinv
  have hmem : ∀ {p}, p ∈ patches e (old.map HandlerDynamic.opc16) w calls ↔
      p ∈ (patches e (old.map HandlerDynamic.opc16) w calls).reverse := List.mem_reverse.symm
  constructor
  · intro hall
    refine ⟨?_, fun hnil => ?_⟩
    · have hnodup : (patches e (old.map HandlerDynamic.opc16) w calls).Nodup :=
        List.nodup_reverse.mp (List.Nodup.of_map Prod.fst hinv.nodup)
      refine List.Nodup.map_on (fun p hp q hq hpq => ?_) hnodup
      have hp' := ((hinv.resolved_iff hsym (hmem.mp hp)).mp (hall p hp)).2
      have hq' := ((hinv.resolved_iff hsym (hmem.mp hq)).mp (hall q hq)).2
      rw [hpq, hq'] at hp'
      exact Prod.ext (Option.some.inj hp').symm hpq
    · obtain ⟨p, hp, hbytes⟩ := List.mem_map.mp hnil
      exact ((hinv.resolved_iff hsym (hmem.mp hp)).mp (hall p hp)).1 hbytes
  · rintro ⟨hnodup, hnil⟩ p hp
    refine (hinv.resolved_iff hsym (hmem.mp hp)).mpr ⟨fun hbytes => ?_, ?_⟩
    · exact hnil (List.mem_map.mpr ⟨p, hp, hbytes⟩)
    · obtain ⟨key, hkey⟩ := hinv.registered p (hmem.mp hp)
      obtain ⟨bytes, hname, hmem'⟩ := hinv.named _ _ hkey
      have hbytes := dynName_inj hname
      have hpair := List.inj_on_of_nodup_map hnodup (hmem.mpr hmem') hp hbytes.symm
      rw [hkey, congrArg Prod.fst hpair.symm]

/-- `Lifter::clear`。module から、handler の名前の関数を除く。次の session の `base` になる。 -/
def clear (names : List String) : List String := names.filter fun name => !isDyn name

theorem isDyn_clear (names : List String) : ∀ n ∈ clear names, isDyn n = false := by
  intro n hn
  simpa using (List.mem_filter.mp hn).2

/-! ## event の起き方 -/

theorem world_raiseLiftAfter (addr : Nat) (opcode : Bytes) (names : List String) (vm : Vm σ γ) :
    (Vm.raiseLiftAfter e addr opcode names vm).world
      = liftAfter e addr opcode names vm.world := by
  induction names generalizing opcode vm with
  | nil => rfl
  | cons name rest ih => exact ih _ _

/-- callback は、engine の `transform` でも session の `transform` でも、同じように呼ばれる。 -/
theorem world_transform {vm : Vm σ γ} {opcode : Bytes} (addr : Nat) (hw : vm.world = s.world)
    (hkey : opcode ∈ vm.lifted ↔ opcodeKey16 opcode ∈ s.handlers.map HandlerDynamic.opc16) :
    (vm.transform e opcode addr).world = (transform e uniqueName base s opcode addr).world := by
  unfold Vm.transform transform
  by_cases hmem : opcode ∈ vm.lifted
  · rw [if_pos hmem]
    cases hfind : findHandler s.handlers (opcodeKey16 opcode) with
    | none => exact absurd (hkey.mp hmem) (findHandler_eq_none.mp hfind)
    | some _ =>
      simp only [hfind]
      exact hw
  · rw [if_neg hmem]
    have hfind := findHandler_eq_none.mpr (hkey.not.mp hmem)
    -- 答えと、書き換えた event の中身で場合を分ける
    rcases h : handleEvent e.callbacks 0 s.world ⟨.liftBefore, addr, .lift opcode ""⟩
      with ⟨result, ⟨type, addr', body⟩, w, log⟩
    cases result <;> cases body <;>
      simp only [hfind, Vm.raise, liftBefore, world_raiseLiftAfter, hw, h]

/-! ## 例 -/

/-- 使われている名前には、使われている数を足す。 -/
def numbered (used : List String) (name : String) : String :=
  if name ∈ used then name ++ "." ++ toString used.length else name

theorem numbered_uniqueNames : UniqueNames numbered where
  free := fun _ _ h => if_neg h
  renamed := fun used _ h => ⟨used.length, if_pos h⟩

/-- `LiftBefore` で、どの命令も `NOP` に書き換える。 -/
def nopCallback : EventCallback Unit := fun w ev =>
  match ev.type with
  | .liftBefore => (.processed, ⟨[0x90], 0⟩, w)
  | _ => (.continue, ⟨[], 0⟩, w)

/-- x86-64 の命令を lift する engine。 -/
def liftEngine (callbacks : List (EventCallback Unit)) : Engine Unit Unit where
  cfg := ⟨true, false, false, false, false, false, false, false, false⟩
  arch := .x86_64
  callbacks := callbacks
  sameArch := true
  disassemble := fun _ => 2
  defaultSize := 1
  remill := fun _ => ⟨true, true, [("ADD_GPRv_GPRv_32", true)]⟩
  entryOf := fun _ => 0
  code := fun _ guest => .ret guest
  initContext := fun _ guest => guest
  pc := fun _ => 0
  retaddr := fun _ => 0
  load := fun _ _ _ => 0
  store := fun guest _ _ _ => guest
  sysno := fun _ => 0
  syscall := id

/-- `ADD` と `SUB`。 -/
def addSub : List (Bytes × Nat) := [([0x01, 0xc8], 0x1000), ([0x29, 0xc8], 0x1002)]

/-- object の symbol。関数は 16 byte ごとに並ぶ。 -/
def symbolsOf (names : List String) : List ObjSymbol :=
  names.mapIdx fun i name => ⟨name, 0x10 * i, true, false⟩

/-- `LiftBefore` で、先頭の byte を変えて、命令ごとに違う byte 列に書き換える。 -/
def xorCallback : EventCallback Unit := fun w ev =>
  match ev.type, ev.opcode with
  | .liftBefore, b :: rest => (.processed, ⟨(b ^^^ 0x02) :: rest, 0⟩, w)
  | _, opcode => (.continue, ⟨opcode, 0⟩, w)

/-- 書き換えた後の byte 列が違えば、どの handler の `entry` も決まる。 -/
theorem addSub_resolved : patches (liftEngine [xorCallback]) [] () addSub =
      [(opcodeKey16 [0x01, 0xc8], [0x03, 0xc8]), (opcodeKey16 [0x29, 0xc8], [0x2b, 0xc8])] ∧
    ∀ p ∈ patches (liftEngine [xorCallback]) [] () addSub,
      Resolved 0x7000 0 (symbolsOf ["aethervm_03c8", "aethervm_2bc8"])
        (transforms (liftEngine [xorCallback]) numbered [] addSub (start () [])) p.1 p.2 := by
  have hbase : ∀ n ∈ ([] : List String), isDyn n = false := fun n hn => by cases hn
  have hemits : Emits (symbolsOf ["aethervm_03c8", "aethervm_2bc8"])
      (transforms (liftEngine [xorCallback]) numbered [] addSub (start () [])).functions :=
    ⟨by decide, by decide⟩
  have hiff := session_resolved_iff numbered_uniqueNames hbase (liftEngine [xorCallback]) () []
    addSub hemits 0x7000 0
  exact ⟨by decide, hiff.mpr ⟨by decide, by decide⟩⟩

/-- 二つの命令が `NOP` に書き換わると、後の命令の handler は `abort` のままになる。 -/
theorem addSub_not_resolved :
    Emits (symbolsOf ["aethervm_90", "aethervm_90.1"])
      (transforms (liftEngine [nopCallback]) numbered [] addSub (start () [])).functions ∧
    (opcodeKey16 [0x29, 0xc8], [0x90]) ∈ patches (liftEngine [nopCallback]) [] () addSub ∧
    findHandler (apply 0x7000 0 (symbolsOf ["aethervm_90", "aethervm_90.1"])
      (transforms (liftEngine [nopCallback]) numbered [] addSub (start () []))).handlers
        (opcodeKey16 [0x29, 0xc8]) = some ⟨opcodeKey16 [0x29, 0xc8], .abort⟩ ∧
    ¬ Resolved 0x7000 0 (symbolsOf ["aethervm_90", "aethervm_90.1"])
      (transforms (liftEngine [nopCallback]) numbered [] addSub (start () []))
        (opcodeKey16 [0x29, 0xc8]) [0x90] := by
  have hfind : findHandler (apply 0x7000 0 (symbolsOf ["aethervm_90", "aethervm_90.1"])
      (transforms (liftEngine [nopCallback]) numbered [] addSub (start () []))).handlers
        (opcodeKey16 [0x29, 0xc8]) = some ⟨opcodeKey16 [0x29, 0xc8], .abort⟩ := by decide
  refine ⟨⟨by decide, by decide⟩, by decide, hfind, ?_⟩
  rintro ⟨f, -, -, sym, -, -, h⟩
  rw [hfind] at h
  cases h

end Lifter

end AetherVM
