import Mathlib.Logic.Function.Basic
import AetherVM.Infra.Bytes
import AetherVM.Infra.Run

/-!
# `qXfer` の読み出し（`lldb/src/Debugger.cpp` の `ReadXferObject_VM`、`Handle_qXfer_VM`）

debugger の client は、target.xml のような object を、offset と長さを指定した packet で少しずつ読む。server は object の
内容を最初の packet で作って取っておき、最後まで渡したら捨てる。

object の内容は、読むたびに違ってよい。それでも一続きの読み出しの答えを繋ぐと、最初の packet の時の内容になる。間に
ほかの object の読み出しが挟まっても、内容が変わっても同じである。

LLDB の関数のうち、16 進数を読む `GetHexMaxU64` と、属性の値を書き換える `XMLEncodeAttributeValue`、process と thread
の基底 class の関数は parameter である。同じ file の `BuildTargetXml_VM` も、内容を作るだけなので parameter とする。
-/

namespace AetherVM.Debugger

open Infra

/-! ## object の内容 -/

/-- 読み出しの失敗。 -/
inductive XferError where
  | message (text : String)
  | unimplemented
deriving DecidableEq, Repr

/-- 読み出しの結果。`aborted` は `abort` である。 -/
inductive XferRead where
  | data (bytes : Bytes)
  | error (e : XferError)
  | aborted
deriving DecidableEq, Repr

/-- `SVR4LibraryInfo`。 -/
structure SVR4LibraryInfo where
  name : String
  linkMap : Nat
  baseAddr : Nat
  ldAddr : Nat
deriving DecidableEq, Repr

/-- 外から受け取る関数。`ω` は process と thread の状態である。 -/
structure XferSource (ω : Type) where
  hasProcess : ω → Bool
  /-- 現在の thread の `GetSiginfo`。thread が無ければ `none` である。 -/
  siginfo : ω → Option (Except XferError Bytes)
  loadedSVR4Libraries : ω → Except XferError (List SVR4LibraryInfo)
  /-- `BuildTargetXml_VM`。 -/
  targetXml : ω → XferRead
  encodeAttribute : String → String
  bytesOf : String → Bytes
  hexMaxU64 : List Char → UInt64 × List Char

section Read

variable {ω : Type} (src : XferSource ω)

/-- `PRIx64` で書いた数。 -/
def hexText (n : Nat) : String := String.ofList (Nat.toDigits 16 n)

/-- `library` の要素。 -/
def libraryXml (l : SVR4LibraryInfo) : String :=
  "<library name=\"" ++ src.encodeAttribute l.name ++ "\" " ++
    "lm=\"0x" ++ hexText l.linkMap ++ "\" " ++ "l_addr=\"0x" ++ hexText l.baseAddr ++ "\" " ++
    "l_ld=\"0x" ++ hexText l.ldAddr ++ "\" />"

def libraryListXml (ls : List SVR4LibraryInfo) : String :=
  "<library-list-svr4 version=\"1.0\">" ++ String.join (ls.map (libraryXml src)) ++
    "</library-list-svr4>"

/-- `ReadXferObject_VM`。`AetherProcess::GetAuxvData` は `abort` する。 -/
def readXferObject (w : ω) (object annex : String) : XferRead :=
  if !src.hasProcess w then .error (.message "No process available")
  else if object = "auxv" then .aborted
  else if object = "siginfo" then
    match src.siginfo w with
    | none => .error (.message "no current thread")
    | some (.error e) => .error e
    | some (.ok bytes) => .data bytes
  else if object = "libraries-svr4" then
    match src.loadedSVR4Libraries w with
    | .error e => .error e
    | .ok ls => .data (src.bytesOf (libraryListXml src ls))
  else if object = "features" ∧ annex = "target.xml" then src.targetXml w
  else .error .unimplemented

/-! ## packet -/

/-- `qXfer` の読み出しの packet。 -/
structure XferRequest where
  object : String
  annex : String
  offset : Nat
  length : Nat
deriving DecidableEq, Repr

/-- 答え。`data` の `last` は、最初の文字が `l` か `m` かである。 -/
inductive XferReply where
  | illFormed (text : String)
  | unimplemented (text : String)
  | error (e : XferError)
  | data (last : Bool) (bytes : Bytes)
  | aborted
deriving DecidableEq, Repr

/-- `StringRef::split`。高々 `n` 回分ける。 -/
def splitFields (sep : Char) : Nat → List Char → List (List Char)
  | 0, s => [s]
  | n + 1, s =>
    if sep ∈ s then s.takeWhile (· ≠ sep) :: splitFields sep n (s.dropWhile (· ≠ sep)).tail
    else [s]

/-- 読めなかったことを表す値。 -/
def failValue : UInt64 := 0xffffffffffffffff

/-- `offset,length`。 -/
def parseWindow (s : List Char) : Except XferReply (Nat × Nat) :=
  let (offset, rest) := src.hexMaxU64 s
  if offset = failValue then .error (.illFormed "qXfer packet missing offset")
  else if rest.head? ≠ some ',' then
    .error (.illFormed "qXfer packet missing comma after offset")
  else
    let (length, _) := src.hexMaxU64 rest.tail
    if length = failValue then .error (.illFormed "qXfer packet missing length")
    else .ok (offset.toNat, length.toNat)

/-- `Handle_qXfer_VM` の、packet を読むところ。 -/
def parseXfer (packet : List Char) : Except XferReply XferRequest :=
  match splitFields ':' 4 packet with
  | [_, object, action, annex, window] =>
    if action ≠ "read".toList then .error (.unimplemented "qXfer action not supported")
    else (parseWindow src window).map fun p =>
      ⟨String.ofList object, String.ofList annex, p.1, p.2⟩
  | _ => .error (.illFormed "malformed qXfer packet")

/-- `m_xfer_buffer_map`。 -/
abbrev XferBuffers := String → Option Bytes

/-- `buffer_key`。 -/
def bufferKey (object annex : String) : String := object ++ "read" ++ annex

/-- 取っておいた内容から、指定の範囲を返す。 -/
def sendWindow (buffers : XferBuffers) (key : String) (bytes : Bytes) (r : XferRequest) :
    XferReply × XferBuffers :=
  if bytes.length ≤ r.offset then (.data true [], Function.update buffers key none)
  else
    let rest := bytes.drop r.offset
    if rest.length ≤ r.length then (.data true rest, Function.update buffers key none)
    else (.data false (rest.take r.length), Function.update buffers key (some bytes))

/-- `Handle_qXfer_VM` の、答えるところ。 -/
def serveXfer (w : ω) (buffers : XferBuffers) (r : XferRequest) : XferReply × XferBuffers :=
  let key := bufferKey r.object r.annex
  match buffers key with
  | some bytes => sendWindow buffers key bytes r
  | none =>
    match readXferObject src w r.object r.annex with
    | .error e => (.error e, buffers)
    | .aborted => (.aborted, buffers)
    | .data bytes => sendWindow buffers key bytes r

/-- `Handle_qXfer_VM`。 -/
def handleXfer (w : ω) (buffers : XferBuffers) (packet : List Char) : XferReply × XferBuffers :=
  match parseXfer src packet with
  | .error reply => (reply, buffers)
  | .ok r => serveXfer src w buffers r

end Read

/-! ## 一つの packet -/

section Serve

variable {ω : Type} {src : XferSource ω} {w : ω} {buffers : XferBuffers} {key : String}
  {bytes : Bytes} {r : XferRequest}

/-- 取っておいた内容が残るのは、まだ続きがあるときだけである。 -/
theorem sendWindow_eq : sendWindow buffers key bytes r =
    (.data (decide (bytes.length ≤ r.offset + r.length)) ((bytes.drop r.offset).take r.length),
      Function.update buffers key
        (if bytes.length ≤ r.offset + r.length then none else some bytes)) := by
  unfold sendWindow
  split
  · next h =>
    have hend : bytes.length ≤ r.offset + r.length := by omega
    simp [hend, List.drop_eq_nil_of_le h]
  · next h =>
    simp only [List.length_drop]
    split
    · next hlen =>
      have hend : bytes.length ≤ r.offset + r.length := by omega
      have htake : (bytes.drop r.offset).take r.length = bytes.drop r.offset :=
        List.take_of_length_le (by rw [List.length_drop]; omega)
      simp [hend, htake]
    · next hlen =>
      have hend : ¬ bytes.length ≤ r.offset + r.length := by omega
      simp [hend]

theorem sendWindow_reply : (sendWindow buffers key bytes r).1 =
    .data (decide (bytes.length ≤ r.offset + r.length))
      ((bytes.drop r.offset).take r.length) := by
  rw [sendWindow_eq]

theorem sendWindow_buffers : (sendWindow buffers key bytes r).2 key =
    if bytes.length ≤ r.offset + r.length then none else some bytes := by
  rw [sendWindow_eq]
  exact Function.update_self ..

theorem sendWindow_of_ne {key' : String} (h : key' ≠ key) :
    (sendWindow buffers key bytes r).2 key' = buffers key' := by
  rw [sendWindow_eq]
  exact Function.update_of_ne h ..

theorem handleXfer_of_parse {packet : List Char} (h : parseXfer src packet = .ok r) :
    handleXfer src w buffers packet = serveXfer src w buffers r := by
  simp only [handleXfer, h]

/-- packet の答えは、取っておいた内容か、今の内容から返る。 -/
theorem serveXfer_of_buffer (h : buffers (bufferKey r.object r.annex) = some bytes) :
    serveXfer src w buffers r = sendWindow buffers (bufferKey r.object r.annex) bytes r := by
  simp only [serveXfer, h]

theorem serveXfer_of_read (h : buffers (bufferKey r.object r.annex) = none)
    (hread : readXferObject src w r.object r.annex = .data bytes) :
    serveXfer src w buffers r = sendWindow buffers (bufferKey r.object r.annex) bytes r := by
  simp only [serveXfer, h, hread]

/-- ほかの鍵に取っておいた内容は変わらない。 -/
theorem serveXfer_of_ne (h : bufferKey r.object r.annex ≠ key) :
    (serveXfer src w buffers r).2 key = buffers key := by
  unfold serveXfer
  dsimp only
  split
  · exact sendWindow_of_ne h.symm
  · split
    · rfl
    · rfl
    · exact sendWindow_of_ne h.symm

/-- 内容が返るなら、それは取っておいた内容か、今の内容の一部である。 -/
theorem serveXfer_data {last : Bool} {part : Bytes}
    (h : (serveXfer src w buffers r).1 = .data last part) : ∃ bytes,
    (buffers (bufferKey r.object r.annex) = some bytes ∨
      readXferObject src w r.object r.annex = .data bytes) ∧
    last = decide (bytes.length ≤ r.offset + r.length) ∧
    part = (bytes.drop r.offset).take r.length := by
  unfold serveXfer at h
  dsimp only at h
  split at h
  · next bytes hbuffer =>
    rw [sendWindow_reply] at h
    cases h
    exact ⟨bytes, .inl hbuffer, rfl, rfl⟩
  · split at h
    · cases h
    · cases h
    · next bytes hread =>
      rw [sendWindow_reply] at h
      cases h
      exact ⟨bytes, .inr hread, rfl, rfl⟩

/-- 取っておく内容は、前から取っておいたものか、今の内容である。 -/
theorem serveXfer_buffers (h : (serveXfer src w buffers r).2 key = some bytes) :
    buffers key = some bytes ∨
      key = bufferKey r.object r.annex ∧ readXferObject src w r.object r.annex = .data bytes := by
  by_cases hkey : bufferKey r.object r.annex = key
  · subst hkey
    unfold serveXfer at h
    dsimp only at h
    split at h
    · next bytes' hbuffer =>
      rw [sendWindow_buffers] at h
      split at h
      · cases h
      · exact .inl (hbuffer.trans h)
    · next hbuffer =>
      split at h
      · exact .inl h
      · exact .inl h
      · next bytes' hread =>
        rw [sendWindow_buffers] at h
        split at h
        · cases h
        · cases h
          exact .inr ⟨rfl, hread⟩
  · rw [serveXfer_of_ne hkey] at h
    exact .inl h

end Serve

/-! ## 一続きの読み出し -/

section Session

variable {ω : Type} (src : XferSource ω) (object annex : String)

/-- server と、object を先頭から読んでいる client。 -/
structure XferSession (ω : Type) where
  world : ω
  buffers : XferBuffers
  collected : Bytes
  reads : Nat
  done : Bool

/-- client の packet、ほかの packet、内容の変化。 -/
inductive XferInput (ω : Type) where
  | mine (packet : List Char)
  | other (packet : List Char)
  | change (w : ω)

/-- 一歩。server が `abort` すると止まる。 -/
def XferSession.step (s : XferSession ω) : XferInput ω → Option (XferSession ω)
  | .mine packet =>
    let (reply, buffers) := handleXfer src s.world s.buffers packet
    match reply with
    | .aborted => none
    | .data last bytes => some { s with
        buffers := buffers, collected := s.collected ++ bytes, reads := s.reads + 1, done := last }
    | _ => some { s with buffers := buffers }
  | .other packet =>
    let (reply, buffers) := handleXfer src s.world s.buffers packet
    if reply = .aborted then none else some { s with buffers := buffers }
  | .change w => some { s with world := w }

/-- client は、読み終わるまで、集めた長さを offset にして読む。ほかの packet は、鍵の違うものである。 -/
def XferSession.Follows (s : XferSession ω) : XferInput ω → Prop
  | .mine packet => s.done = false ∧ ∃ length, 0 < length ∧
      parseXfer src packet = .ok ⟨object, annex, s.collected.length, length⟩
  | .other packet => ∀ r, parseXfer src packet = .ok r →
      bufferKey r.object r.annex ≠ bufferKey object annex
  | .change _ => True

/-- 最初の内容 `content` を読んでいる途中か、読み終わった状態。 -/
structure XferSession.Reading (content : Bytes) (s : XferSession ω) : Prop where
  collected : s.collected = content.take s.collected.length
  done : s.done = true → s.collected = content ∧ s.buffers (bufferKey object annex) = none
  going : s.done = false → s.buffers (bufferKey object annex) = some content ∧
    s.reads ≤ s.collected.length ∧ s.collected.length < content.length

variable {src object annex} {s s' : XferSession ω} {content : Bytes}

/-- 続きを読むと、集めたものは内容の先頭のままで、終わりまで来れば内容の全体になる。 -/
theorem reading_append {world : ω} {buffers : XferBuffers} {collected : Bytes} {reads : Nat}
    {r : XferRequest} (hkey : bufferKey r.object r.annex = bufferKey object annex)
    (hoffset : r.offset = collected.length) (hlength : 0 < r.length)
    (hcollected : collected = content.take collected.length)
    (hreads : reads ≤ collected.length) :
    XferSession.Reading object annex content
      { world := world
        buffers := (sendWindow buffers (bufferKey r.object r.annex) content r).2
        collected := collected ++ (content.drop r.offset).take r.length
        reads := reads + 1
        done := decide (content.length ≤ r.offset + r.length) } := by
  have happend : collected ++ (content.drop r.offset).take r.length =
      content.take (r.offset + r.length) := by
    rw [List.take_add, hoffset, ← hcollected]
  have hsent : (sendWindow buffers (bufferKey r.object r.annex) content r).2
      (bufferKey object annex) =
        if content.length ≤ r.offset + r.length then none else some content := by
    rw [← hkey]
    exact sendWindow_buffers
  constructor
  case collected =>
    simp only [happend, List.length_take]
    rw [List.take_eq_take_min]
  case done =>
    intro hdone
    have hend : content.length ≤ r.offset + r.length := by simpa using hdone
    exact ⟨happend.trans (List.take_of_length_le hend), hsent.trans (if_pos hend)⟩
  case going =>
    intro hgoing
    have hend : ¬ content.length ≤ r.offset + r.length := by simpa using hgoing
    refine ⟨hsent.trans (if_neg hend), ?_⟩
    simp only [happend, List.length_take]
    omega

/-- 内容 `content` を読む client の packet の一歩。 -/
theorem step_mine_eq {packet : List Char} {r : XferRequest} (hparse : parseXfer src packet = .ok r)
    (hserve : s.buffers (bufferKey r.object r.annex) = some content ∨
      s.buffers (bufferKey r.object r.annex) = none ∧
        readXferObject src s.world r.object r.annex = .data content) :
    s.step src (.mine packet) = some
      { world := s.world
        buffers := (sendWindow s.buffers (bufferKey r.object r.annex) content r).2
        collected := s.collected ++ (content.drop r.offset).take r.length
        reads := s.reads + 1
        done := decide (content.length ≤ r.offset + r.length) } := by
  have hsend : serveXfer src s.world s.buffers r =
      sendWindow s.buffers (bufferKey r.object r.annex) content r := by
    rcases hserve with hbuffer | ⟨hnone, hread⟩
    · exact serveXfer_of_buffer hbuffer
    · exact serveXfer_of_read hnone hread
  simp only [XferSession.step, handleXfer_of_parse hparse, hsend, sendWindow_reply]

/-- 鍵の違う packet は、読んでいる途中の状態を保つ。 -/
theorem handleXfer_of_follows {packet : List Char} {w : ω} {buffers : XferBuffers}
    (hother : ∀ r, parseXfer src packet = .ok r →
      bufferKey r.object r.annex ≠ bufferKey object annex) :
    (handleXfer src w buffers packet).2 (bufferKey object annex) =
      buffers (bufferKey object annex) := by
  unfold handleXfer
  split
  · rfl
  · next r hparse => exact serveXfer_of_ne (hother r hparse)

/-- 一歩は、読んでいる途中の状態を保つ。 -/
theorem XferSession.Reading.step {i : XferInput ω} (h : s.Reading object annex content)
    (hok : s.Follows src object annex i) (hs : s.step src i = some s') :
    s'.Reading object annex content := by
  cases i with
  | mine packet =>
    obtain ⟨hdone, length, hlength, hparse⟩ := hok
    obtain ⟨hbuffer, hreads, -⟩ := h.going hdone
    rw [step_mine_eq hparse (.inl hbuffer)] at hs
    cases hs
    exact reading_append rfl rfl hlength h.collected hreads
  | other packet =>
    have hkeep : (handleXfer src s.world s.buffers packet).2 (bufferKey object annex) =
        s.buffers (bufferKey object annex) := handleXfer_of_follows hok
    simp only [XferSession.step] at hs
    split at hs
    · cases hs
    · cases hs
      constructor
      case collected => exact h.collected
      case done => exact fun hdone => ⟨(h.done hdone).1, hkeep.trans (h.done hdone).2⟩
      case going => exact fun hgoing => ⟨hkeep.trans (h.going hgoing).1, (h.going hgoing).2⟩
  | change w =>
    cases hs
    exact { h with }

/--
最初の packet の時の内容が `content` なら、間に何が起きても、集めたものは `content` の先頭であり、読み終われば `content` の
全体である。読み終わると server は何も残さず、`content` の長さだけ読むまでに読み終わる。
-/
theorem session_reads_content {packet : List Char} {s₁ : XferSession ω}
    (hfresh : s.collected = [] ∧ s.reads = 0) (hbuffer : s.buffers (bufferKey object annex) = none)
    (hread : readXferObject src s.world object annex = .data content)
    (hok : s.Follows src object annex (.mine packet)) (hs : s.step src (.mine packet) = some s₁)
    (hrun : Run (fun s i s' => XferSession.step src s i = some s')
      (XferSession.Follows src object annex) s₁ s') :
    s'.collected <+: content ∧
      (s'.done = true → s'.collected = content ∧ s'.buffers (bufferKey object annex) = none) ∧
      (s'.done = false → s'.reads < content.length) := by
  obtain ⟨hcollected, hreads⟩ := hfresh
  obtain ⟨-, length, hlength, hparse⟩ := hok
  have hfirst : s₁.Reading object annex content := by
    rw [step_mine_eq hparse (.inr ⟨hbuffer, hread⟩)] at hs
    cases hs
    exact reading_append rfl rfl hlength (by rw [hcollected]; rfl) (by omega)
  have hreading : s'.Reading object annex content :=
    hrun.invariant hfirst fun _ _ _ h hok hs => h.step hok hs
  refine ⟨?_, hreading.done, fun hgoing => ?_⟩
  · rw [hreading.collected]
    exact List.take_prefix ..
  · obtain ⟨-, hle, hlt⟩ := hreading.going hgoing
    omega

end Session

/-! ## 鍵の取り違え -/

section Owner

variable {ω : Type} {src : XferSource ω}

/-- 内容のある object。 -/
def Accepted (object annex : String) : Prop :=
  object = "siginfo" ∨ object = "libraries-svr4" ∨ object = "features" ∧ annex = "target.xml"

theorem accepted_of_data {w : ω} {object annex : String} {bytes : Bytes}
    (h : readXferObject src w object annex = .data bytes) : Accepted object annex := by
  unfold readXferObject at h
  split at h
  · cases h
  split at h
  · cases h
  split at h
  · next hobject => exact .inl hobject
  split at h
  · next hobject => exact .inr (.inl hobject)
  split at h
  · next hfeatures => exact .inr (.inr hfeatures)
  · cases h

theorem toList_bufferKey (object annex : String) :
    (bufferKey object annex).toList = object.toList ++ ("read".toList ++ annex.toList) := by
  simp [bufferKey]

/-- 内容のある object の鍵は、object と annex を決める。 -/
theorem Accepted.key_inj {o a o' a' : String} (h : Accepted o a) (h' : Accepted o' a')
    (hkey : bufferKey o a = bufferKey o' a') : o = o' ∧ a = a' := by
  have hlist := congrArg String.toList hkey
  rw [toList_bufferKey, toList_bufferKey] at hlist
  have ho : o = o' := by
    rcases h with rfl | rfl | ⟨rfl, -⟩ <;> rcases h' with rfl | rfl | ⟨rfl, -⟩ <;>
      first | rfl | simp at hlist
  subst ho
  have ha : a.toList = a'.toList := by simpa using hlist
  exact ⟨rfl, String.toList_inj.mp ha⟩

/-- server と、これまでの process の状態。`worlds` の先頭が今の状態である。 -/
structure XferServer (ω : Type) where
  world : ω
  past : List ω
  buffers : XferBuffers

/-- packet か、内容の変化。 -/
inductive XferEvent (ω : Type) where
  | packet (p : List Char)
  | change (w : ω)

def XferServer.step (src : XferSource ω) (s : XferServer ω) : XferEvent ω → Option (XferServer ω)
  | .packet p =>
    let (reply, buffers) := handleXfer src s.world s.buffers p
    if reply = .aborted then none else some { s with buffers := buffers }
  | .change w => some { s with world := w, past := s.world :: s.past }

/-- まだ何も読んでいない server。 -/
def XferServer.init (w : ω) : XferServer ω := ⟨w, [], fun _ => none⟩

/-- `bytes` は、今までのどこかの時の object の内容である。 -/
def XferServer.Held (src : XferSource ω) (s : XferServer ω) (object annex : String)
    (bytes : Bytes) : Prop :=
  ∃ w ∈ s.world :: s.past, readXferObject src w object annex = .data bytes

/-- 取っておいた内容は、どれもその鍵の object の内容である。 -/
def XferServer.Owned (src : XferSource ω) (s : XferServer ω) : Prop :=
  ∀ key bytes, s.buffers key = some bytes →
    ∃ object annex, key = bufferKey object annex ∧ s.Held src object annex bytes

theorem XferServer.Owned.step {s s' : XferServer ω} {e : XferEvent ω} (h : s.Owned src)
    (hs : s.step src e = some s') : s'.Owned src := by
  cases e with
  | change w =>
    cases hs
    intro key bytes hbuffer
    obtain ⟨object, annex, hkey, w', hw', hread⟩ := h key bytes hbuffer
    exact ⟨object, annex, hkey, w', List.mem_cons_of_mem _ hw', hread⟩
  | packet p =>
    simp only [XferServer.step] at hs
    split at hs
    · cases hs
    · cases hs
      intro key bytes hbuffer
      simp only [handleXfer] at hbuffer
      split at hbuffer
      · exact h key bytes hbuffer
      · next r _ =>
        rcases serveXfer_buffers hbuffer with hold | ⟨hkey, hread⟩
        · exact h key bytes hold
        · exact ⟨r.object, r.annex, hkey, s.world, List.mem_cons_self, hread⟩

/--
どのような packet がどう並んでも、内容のある object を読む packet には、その object のどこかの時の内容の、求めた範囲だけが
返る。ほかの object の内容が混ざることはない。
-/
theorem reply_from_object {w : ω} {s : XferServer ω} {packet : List Char} {r : XferRequest}
    {last : Bool} {part : Bytes}
    (hrun : Run (fun s e s' => XferServer.step src s e = some s') (fun _ _ => True)
      (XferServer.init w) s)
    (hparse : parseXfer src packet = .ok r) (haccepted : Accepted r.object r.annex)
    (hreply : (handleXfer src s.world s.buffers packet).1 = .data last part) :
    ∃ bytes, s.Held src r.object r.annex bytes ∧ part = (bytes.drop r.offset).take r.length ∧
      last = decide (bytes.length ≤ r.offset + r.length) := by
  have howned : s.Owned src :=
    hrun.invariant (fun _ _ h => by cases h) fun _ _ _ h _ hs => h.step hs
  rw [handleXfer_of_parse hparse] at hreply
  obtain ⟨bytes, hbytes, hlast, hpart⟩ := serveXfer_data hreply
  refine ⟨bytes, ?_, hpart, hlast⟩
  rcases hbytes with hbuffer | hread
  · obtain ⟨object, annex, hkey, w', hw', hread⟩ := howned _ _ hbuffer
    obtain ⟨ho, ha⟩ := haccepted.key_inj (accepted_of_data hread) hkey
    exact ⟨w', hw', by rw [ho, ha]; exact hread⟩
  · exact ⟨s.world, List.mem_cons_self, hread⟩

end Owner

/-! ## target.xml を読む -/

/-- 16 進数を一桁だけ読む。 -/
def digitValue (c : Char) : UInt64 := UInt64.ofNat (c.toNat - '0'.toNat)

/-- target.xml の内容が変わる process。 -/
def sampleSource : XferSource Bytes where
  hasProcess _ := true
  siginfo _ := some (.ok [7, 8])
  loadedSVR4Libraries _ := .error .unimplemented
  targetXml w := .data w
  encodeAttribute s := s
  bytesOf s := s.toUTF8.toList
  hexMaxU64
    | [] => (failValue, [])
    | c :: rest => if c.isDigit then (digitValue c, rest) else (failValue, c :: rest)

/-- 読み始める時の target.xml。 -/
def sampleContent : Bytes := [1, 2, 3, 4, 5]

def sampleSession : XferSession Bytes := ⟨sampleContent, fun _ => none, [], 0, false⟩

/-- `offset` から `length` byte を読む packet。 -/
def samplePacket (offset length : String) : List Char :=
  ("qXfer:features:read:target.xml:" ++ offset ++ "," ++ length).toList

/-- siginfo の最初の byte を読む packet。 -/
def siginfoPacket : List Char := "qXfer:siginfo:read::0,1".toList

theorem samplePacket_parse :
    parseXfer sampleSource (samplePacket "0" "3") = .ok ⟨"features", "target.xml", 0, 3⟩ ∧
      parseXfer sampleSource (samplePacket "3" "3") = .ok ⟨"features", "target.xml", 3, 3⟩ := by
  decide

theorem siginfoPacket_parse : parseXfer sampleSource siginfoPacket = .ok ⟨"siginfo", "", 0, 1⟩ := by
  decide

theorem sampleSource_read (w : Bytes) :
    readXferObject sampleSource w "features" "target.xml" = .data w := rfl

/-- 最初の packet は、内容の先頭を返して、内容を取っておく。 -/
theorem sampleFirst : ∃ buffers,
    handleXfer sampleSource sampleContent (fun _ => none) (samplePacket "0" "3") =
      (.data false [1, 2, 3], buffers) ∧
    buffers (bufferKey "features" "target.xml") = some sampleContent ∧
    buffers (bufferKey "siginfo" "") = none := by
  have hserve : serveXfer sampleSource sampleContent (fun _ => none)
      ⟨"features", "target.xml", 0, 3⟩ = sendWindow (fun _ => none)
        (bufferKey "features" "target.xml") sampleContent ⟨"features", "target.xml", 0, 3⟩ :=
    serveXfer_of_read rfl (sampleSource_read sampleContent)
  refine ⟨(sendWindow (fun _ => none) (bufferKey "features" "target.xml") sampleContent
    ⟨"features", "target.xml", 0, 3⟩).2, ?_, sendWindow_buffers, sendWindow_of_ne (by decide)⟩
  rw [handleXfer_of_parse samplePacket_parse.1, hserve]
  exact Prod.ext sendWindow_reply rfl

/-- 内容が変わり、siginfo を途中まで読む packet が挟まっても、初めの五 byte をすべて読む。 -/
theorem session_reads_content_sample : ∃ s : XferSession Bytes, s.done = true ∧ s.reads = 2 ∧
    s.world = [9] ∧ s.collected = sampleContent ∧
    s.buffers (bufferKey "features" "target.xml") = none := by
  obtain ⟨buffers, hfirst, hbuffer, hsiginfo⟩ := sampleFirst
  have hs₁ : sampleSession.step sampleSource (.mine (samplePacket "0" "3")) =
      some ⟨sampleContent, buffers, [1, 2, 3], 1, false⟩ := by
    simp only [XferSession.step, sampleSession, hfirst]
    rfl
  have hother : ∀ r, parseXfer sampleSource siginfoPacket = .ok r →
      bufferKey r.object r.annex ≠ bufferKey "features" "target.xml" := by
    intro r hr
    cases siginfoPacket_parse.symm.trans hr
    decide
  have hkept : (handleXfer sampleSource [9] buffers siginfoPacket).2
      (bufferKey "features" "target.xml") = some sampleContent :=
    (handleXfer_of_follows hother).trans hbuffer
  have hs₃ : XferSession.step sampleSource ⟨[9], buffers, [1, 2, 3], 1, false⟩
      (.other siginfoPacket) = some ⟨[9],
        (handleXfer sampleSource [9] buffers siginfoPacket).2, [1, 2, 3], 1, false⟩ := by
    have hreply : (handleXfer sampleSource [9] buffers siginfoPacket).1 ≠ .aborted := by
      rw [handleXfer_of_parse siginfoPacket_parse, serveXfer_of_read hsiginfo rfl, sendWindow_reply]
      simp
    exact if_neg hreply
  generalize (handleXfer sampleSource [9] buffers siginfoPacket).2 = buffers' at hs₃ hkept
  have hs₄ := step_mine_eq (s := ⟨[9], buffers', [1, 2, 3], 1, false⟩) samplePacket_parse.2
    (.inl hkept)
  have hsecond : XferSession.Follows sampleSource "features" "target.xml"
      ⟨[9], buffers', [1, 2, 3], 1, false⟩ (.mine (samplePacket "3" "3")) :=
    ⟨rfl, 3, by decide, samplePacket_parse.2⟩
  obtain ⟨-, hfinal, -⟩ := session_reads_content (s := sampleSession) ⟨rfl, rfl⟩ rfl
    (sampleSource_read sampleContent) ⟨rfl, 3, by decide, samplePacket_parse.1⟩ hs₁
    (.tail (.tail (.tail .refl (i := .change [9]) trivial rfl) (i := .other siginfoPacket) hother
      hs₃) hsecond hs₄)
  exact ⟨_, rfl, rfl, rfl, hfinal rfl⟩

/-- 内容が変わっても、取っておいた内容の続きが返る。 -/
theorem reply_from_object_sample : ∃ s : XferServer Bytes, s.world = [9] ∧
    (handleXfer sampleSource s.world s.buffers (samplePacket "3" "3")).1 = .data true [4, 5] ∧
      ∃ bytes, s.Held sampleSource "features" "target.xml" bytes ∧
        [4, 5] = (bytes.drop 3).take 3 := by
  obtain ⟨buffers, hfirst, hbuffer, -⟩ := sampleFirst
  have hs₁ : (XferServer.init sampleContent).step sampleSource (.packet (samplePacket "0" "3")) =
      some ⟨sampleContent, [], buffers⟩ := by
    simp only [XferServer.step, XferServer.init, hfirst]
    rfl
  have hrun : Run (fun s e s' => XferServer.step sampleSource s e = some s') (fun _ _ => True)
      (XferServer.init sampleContent) ⟨[9], [sampleContent], buffers⟩ :=
    .tail (.tail .refl trivial hs₁) (i := .change [9]) trivial rfl
  have hreply : (handleXfer sampleSource [9] buffers (samplePacket "3" "3")).1 =
      .data true [4, 5] := by
    rw [handleXfer_of_parse samplePacket_parse.2, serveXfer_of_buffer hbuffer, sendWindow_reply]
    rfl
  obtain ⟨bytes, hheld, hpart, -⟩ := reply_from_object hrun samplePacket_parse.2
    (.inr (.inr ⟨rfl, rfl⟩)) hreply
  exact ⟨_, rfl, hreply, bytes, hheld, hpart⟩

end AetherVM.Debugger
