import AlpacaCore.Astl.MemStreambuf
import AlpacaCore.Jalog.Logger
import AlpacaCore.Jalog.QWrite

/-!
`BasicStream` and `Stream`: entries are put together in a buffer and then recorded.

Any number of streams are written to while the logger and its scopes change. What is written is an
`Item`; what is put in the buffer for one may be undefined, as it is for the integer that
`write_integer` has no room for. `Drafts` has for each stream the text of its next entry, and neither
a buffer nor a registry.
-/

namespace AlpacaCore.Jalog

open AlpacaCore.System (run)
open AlpacaCore.Astl (Container MemOstreambuf SmallVector)
open Function (update update_self update_of_ne)

/-- A call of the stream buffer. -/
inductive Put where
  | sputc (c : UInt8)
  | sputn (s : List UInt8)
deriving DecidableEq

/-- What `operator,` is called with. An integer has so many bytes and a base; a pointer is one, of
base 16. What is written of a floating point number or of another type is given. -/
inductive Item where
  | endl
  | bool (b : Bool)
  | char (c : UInt8)
  | text (s : List UInt8)
  | integer (signed : Bool) (base bytes : Nat) (range : 2 ≤ base ∧ base ≤ 36) (width : 0 < bytes ∧ bytes ≤ 8)
      (i : BitVec (bytes * 8))
  | float (s : List UInt8) (short : s.length ≤ 128)
  | other (puts : List Put)

/-- How a stream buffer is called for it. The put pointer is moved by an `int`. -/
def Item.puts : Item → Option (List Put)
  | .endl => some []
  | .bool b => some [.sputn (if b then [116, 114, 117, 101] else [102, 97, 108, 115, 101])]
  | .char c => some [.sputc c]
  | .text s => if s.length < 2 ^ 31 then some [.sputn s] else none
  | .integer signed base _ _ _ i => (QWrite.writeInteger signed base i .none []).map fun s => [.sputn s]
  | .float s _ => some [.sputn (QWrite.writePadded [] s .none)]
  | .other puts => some puts

structure BasicStream (C : Type) [Container C UInt8] where
  scope : Nat
  level : Level
  streambuf : MemOstreambuf C
  /-- `m_enabled` of a `Stream` -/
  enabled : Option Bool

namespace BasicStream

variable {C : Type} [Container C UInt8]

def write (b : BasicStream C) (put : Put) : BasicStream C :=
  match put with
  | .sputc c => { b with streambuf := b.streambuf.sputc c }
  | .sputn s => { b with streambuf := b.streambuf.sputn s }

/-- The text of the entry, and the stream after it. -/
def flush (b : BasicStream C) : List UInt8 × BasicStream C :=
  let textLength := b.streambuf.pptr
  let streambuf := b.streambuf.sputc 0
  ((Container.data streambuf.data).take textLength, { b with streambuf := streambuf.clear })

end BasicStream

/-- What is done with the logger, its scopes and the streams, which have addresses too. -/
inductive StreamAction where
  | logger (a : Action)
  /-- `AC_JALOG_SCOPE`, which makes a `BasicStream` only if the scope is enabled -/
  | line (stream scope : Nat) (lvl : Level)
  /-- the constructor of `Stream` -/
  | construct (stream scope : Nat) (lvl : Level)
  | put (stream : Nat) (item : Item) (now : Int)
  | setLevel (stream : Nat) (lvl : Level) (now : Int)
  | destroy (stream : Nat) (now : Int)

structure Streaming (C : Type) [Container C UInt8] where
  logging : Logging
  streams : Nat → Option (BasicStream C)

namespace Streaming

variable {C : Type} [Container C UInt8]

def start (C : Type) [Container C UInt8] : Streaming C := ⟨.start, fun _ => none⟩

def enabled (s : Streaming C) (scope : Nat) (lvl : Level) : Option Bool :=
  (s.logging.scopes scope).map fun object => object.enabled lvl

def flush (s : Streaming C) (stream : Nat) (b : BasicStream C) (now : Int) : Option (Streaming C) :=
  (s.logging.step (.addEntryUnchecked b.scope b.level b.flush.1 now)).map fun logging =>
    ⟨logging, update s.streams stream (some b.flush.2)⟩

def flushIfNotEmpty (s : Streaming C) (stream : Nat) (b : BasicStream C) (now : Int) : Option (Streaming C) :=
  if b.streambuf.pptr ≠ 0 then s.flush stream b now else some s

def put (s : Streaming C) (stream : Nat) (b : BasicStream C) (item : Item) (now : Int) : Option (Streaming C) :=
  match item with
  | .endl => s.flush stream b now
  | item => item.puts.map fun puts =>
      { s with streams := update s.streams stream (some (puts.foldl BasicStream.write b)) }

def step (s : Streaming C) : StreamAction → Option (Streaming C)
  | .logger a => (s.logging.step a).map fun logging => { s with logging }
  | .line stream scope lvl =>
      match s.streams stream with
      | some _ => none
      | none => (s.enabled scope lvl).map fun enabled =>
          if enabled then
            { s with streams := update s.streams stream (some ⟨scope, lvl, .new C 0, none⟩) }
          else s
  | .construct stream scope lvl =>
      match s.streams stream with
      | some _ => none
      | none => (s.enabled scope lvl).map fun enabled =>
          { s with streams := update s.streams stream (some ⟨scope, lvl, .new C 0, some enabled⟩) }
  | .put stream item now =>
      match s.streams stream with
      | some b => if b.enabled = some false then some s else s.put stream b item now
      | none => none
  | .setLevel stream lvl now =>
      match s.streams stream with
      | some b =>
          match b.enabled with
          | none => none
          | some _ => (s.flushIfNotEmpty stream b now).bind fun s =>
              (s.enabled b.scope lvl).map fun enabled =>
                { s with streams := update s.streams stream ((s.streams stream).map fun b =>
                    { b with level := lvl, enabled := some enabled }) }
      | none => none
  | .destroy stream now =>
      match s.streams stream with
      | some b =>
          match b.enabled with
          | none => some { s with streams := update s.streams stream none }
          | some _ => (s.flushIfNotEmpty stream b now).map fun s =>
              { s with streams := update s.streams stream none }
      | none => none

end Streaming

/-! ### Drafts -/

/-- The entry that a stream is to record next. -/
structure Draft where
  scope : Nat
  level : Level
  text : List UInt8
  enabled : Option Bool

def Put.bytes : Put → List UInt8
  | .sputc c => [c]
  | .sputn s => s

/-- What an item adds to the text, where that is defined. -/
def Item.appended : Item → Option (List UInt8)
  | .endl => some []
  | .bool b => some (if b then [116, 114, 117, 101] else [102, 97, 108, 115, 101])
  | .char c => some [c]
  | .text s => if s.length < 2 ^ 31 then some s else none
  | .integer signed base bytes _ _ i =>
      if signed = true ∧ base = 2 ∧ i = BitVec.intMin (bytes * 8) then none
      else some (QWrite.textOf base (QWrite.number signed i))
  | .float s _ => some s
  | .other puts => some (puts.flatMap Put.bytes)

structure Drafts where
  book : Book
  drafts : Nat → Option Draft

namespace Drafts

def start : Drafts := ⟨.start, fun _ => none⟩

def enabled (s : Drafts) (scope : Nat) (lvl : Level) : Option Bool :=
  (s.book.scopes scope).map fun (least, _) => least.value ≤ lvl.value

/-- The draft becomes an entry. -/
def record (s : Drafts) (stream : Nat) (d : Draft) (now : Int) : Option Drafts :=
  (s.book.scopes d.scope).map fun (_, desc) =>
    ⟨s.book.record d.level desc d.text now, update s.drafts stream (some { d with text := [] })⟩

/-- An empty draft is no entry. -/
def close (s : Drafts) (stream : Nat) (d : Draft) (now : Int) : Option Drafts :=
  if d.text = [] then some s else s.record stream d now

def step (s : Drafts) : StreamAction → Option Drafts
  | .logger a => (s.book.step a).map fun book => { s with book }
  | .line stream scope lvl =>
      match s.drafts stream with
      | some _ => none
      | none => (s.enabled scope lvl).map fun enabled =>
          if enabled then { s with drafts := update s.drafts stream (some ⟨scope, lvl, [], none⟩) } else s
  | .construct stream scope lvl =>
      match s.drafts stream with
      | some _ => none
      | none => (s.enabled scope lvl).map fun enabled =>
          { s with drafts := update s.drafts stream (some ⟨scope, lvl, [], some enabled⟩) }
  | .put stream item now => (s.drafts stream).bind fun d =>
      if d.enabled = some false then some s
      else match item with
        | .endl => s.record stream d now
        | item => item.appended.map fun text =>
            { s with drafts := update s.drafts stream (some { d with text := d.text ++ text }) }
  | .setLevel stream lvl now => (s.drafts stream).bind fun d =>
      if d.enabled = none then none
      else (s.close stream d now).bind fun s => (s.enabled d.scope lvl).map fun enabled =>
        { s with drafts := update s.drafts stream (some ⟨d.scope, lvl, [], some enabled⟩) }
  | .destroy stream now => (s.drafts stream).bind fun d =>
      (if d.enabled = none then some s else s.close stream d now).map fun s =>
        { s with drafts := update s.drafts stream none }

end Drafts

/-! ### Texts -/

theorem writePadded_none {s : List UInt8} (short : s.length < 2 ^ 15) : QWrite.writePadded [] s .none = s := by
  have unpadded : QWrite.Pad.none.pad s = s := by
    simp [QWrite.Pad.pad, QWrite.Pad.front, QWrite.Pad.none]
  have fits : s.length ≤ QWrite.Pad.none.size.toInt + 2 ^ 15 := by
    have size : QWrite.Pad.none.size.toInt = 0 := rfl
    omega
  rw [(QWrite.writePadded_eq_iff short []).mpr fits, unpadded, List.nil_append]

theorem Item.puts_appended (item : Item) : item.puts.map (·.flatMap Put.bytes) = item.appended := by
  cases item with
  | endl => rfl
  | bool b => simp [Item.puts, Item.appended, Put.bytes]
  | char c => rfl
  | text s =>
      simp only [Item.puts, Item.appended]
      split
      · simp [Put.bytes]
      · rfl
  | integer signed base bytes range width i =>
      simp only [Item.puts, Item.appended]
      rw [QWrite.writeInteger_eq range.1 range.2]
      have inside := @QWrite.length_textOf_le_iff base signed bytes i range.1 width.1
      by_cases least : signed = true ∧ base = 2 ∧ i = BitVec.intMin (bytes * 8)
      · rw [if_pos least, if_neg fun short => inside.mp short least]
        rfl
      · have short := inside.mpr least
        rw [if_neg least, if_pos short, writePadded_none (by omega)]
        simp [Put.bytes]
  | float s short =>
      simp only [Item.puts, Item.appended, writePadded_none (Nat.lt_of_le_of_lt short (by decide))]
      simp [Put.bytes]
  | other puts => rfl

section Drafting

variable {C : Type} [Container C UInt8]

/-- What a stream is to record next. -/
def BasicStream.draft (b : BasicStream C) : Draft := ⟨b.scope, b.level, b.streambuf.text, b.enabled⟩

theorem BasicStream.draft_writes (b : BasicStream C) (puts : List Put) :
    (puts.foldl BasicStream.write b).draft = { b.draft with text := b.draft.text ++ puts.flatMap Put.bytes } := by
  induction puts generalizing b with
  | nil => simp
  | cons put puts ih =>
      have first : (b.write put).draft = { b.draft with text := b.draft.text ++ put.bytes } := by
        cases put with
        | sputc c => simp [BasicStream.write, BasicStream.draft, Put.bytes]
        | sputn s => simp [BasicStream.write, BasicStream.draft, Put.bytes]
      rw [List.foldl_cons, ih, first, List.flatMap_cons, List.append_assoc]

/-- The zero behind the text does not belong to it. -/
theorem BasicStream.flush_eq (b : BasicStream C) :
    b.flush.1 = b.draft.text ∧ b.flush.2.draft = { b.draft with text := [] } := by
  have zeroed := b.streambuf.text_sputc 0
  have length := b.streambuf.length_text
  have length' := (b.streambuf.sputc 0).length_text
  constructor
  · rw [zeroed, List.length_append, length] at length'
    unfold MemOstreambuf.text at zeroed
    have front := congrArg (List.take b.streambuf.pptr) zeroed
    rw [List.take_take, ← length', Nat.min_eq_left (Nat.le_add_right _ _)] at front
    rw [BasicStream.flush, front, List.take_append_of_le_length, List.take_take, Nat.min_self]
    · rfl
    · rw [← MemOstreambuf.text, length]
  · rfl

/-- Streams and drafts with the same text. -/
structure Like (s : Streaming C) (t : Drafts) : Prop where
  stands : Stands s.logging t.book
  drafts : ∀ a, t.drafts a = (s.streams a).map BasicStream.draft

variable {s : Streaming C} {t : Drafts}

theorem Like.enabled (like : Like s t) (scope : Nat) (lvl : Level) : s.enabled scope lvl = t.enabled scope lvl := by
  unfold Streaming.enabled Drafts.enabled
  rw [like.stands.scopes scope, Book.object, Option.map_map]
  rfl

theorem Like.stored (like : Like s t) (stream : Nat) (b : Option (BasicStream C)) :
    Like { s with streams := update s.streams stream b }
      { t with drafts := update t.drafts stream (b.map BasicStream.draft) } := by
  constructor
  · exact like.stands
  · intro a
    by_cases same : a = stream
    · rw [same]
      simp only [update_self]
    · simp only [update_of_ne same]
      exact like.drafts a

theorem Like.flush (like : Like s t) (stream : Nat) (b : BasicStream C) (now : Int) :
    Option.Rel Like (s.flush stream b now) (t.record stream b.draft now) := by
  obtain ⟨text, rest⟩ := b.flush_eq
  unfold Streaming.flush Drafts.record
  rw [text]
  have stepped := like.stands.step (.addEntryUnchecked b.scope b.level b.draft.text now)
  simp only [Book.step] at stepped
  have same : b.draft.scope = b.scope := rfl
  rw [same]
  generalize s.logging.step (.addEntryUnchecked b.scope b.level b.draft.text now) = after at stepped
  cases found : t.book.scopes b.scope with
  | none =>
      rw [found] at stepped
      cases stepped
      exact .none
  | some found' =>
      rw [found] at stepped
      cases stepped with
      | some stands =>
          have updated := like.stored stream (some b.flush.2)
          rw [Option.map_some, rest] at updated
          exact .some ⟨stands, updated.drafts⟩

theorem Like.flushIfNotEmpty (like : Like s t) (stream : Nat) (b : BasicStream C) (now : Int) :
    Option.Rel Like (s.flushIfNotEmpty stream b now) (t.close stream b.draft now) := by
  have length := b.streambuf.length_text
  unfold Streaming.flushIfNotEmpty Drafts.close
  by_cases empty : b.streambuf.pptr = 0
  · have nothing : b.draft.text = [] := List.eq_nil_of_length_eq_zero (length.trans empty)
    rw [if_neg (not_not_intro empty), if_pos nothing]
    exact .some like
  · have something : b.draft.text ≠ [] := by
      intro nothing
      apply empty
      rw [← length]
      exact List.length_eq_zero_iff.mpr nothing
    rw [if_pos empty, if_neg something]
    exact like.flush stream b now

theorem Like.put (like : Like s t) (stream : Nat) (b : BasicStream C) (item : Item) (now : Int) :
    Option.Rel Like (s.put stream b item now) (match item with
      | .endl => t.record stream b.draft now
      | item => item.appended.map fun text =>
          { t with drafts := update t.drafts stream (some { b.draft with text := b.draft.text ++ text }) }) := by
  have written : Option.Rel Like
      (item.puts.map fun puts =>
        { s with streams := update s.streams stream (some (puts.foldl BasicStream.write b)) })
      (item.appended.map fun text =>
        { t with drafts := update t.drafts stream (some { b.draft with text := b.draft.text ++ text }) }) := by
    rw [← item.puts_appended, Option.map_map]
    cases item.puts with
    | none => exact .none
    | some puts =>
        have updated := like.stored stream (some (puts.foldl BasicStream.write b))
        rw [Option.map_some, b.draft_writes puts] at updated
        exact .some updated
  cases item with
  | endl => exact like.flush stream b now
  | _ => exact written

/-- A draft that is closed is empty then. -/
theorem Drafts.close_eq {t t' : Drafts} {stream : Nat} {d : Draft} {now : Int} (there : t.drafts stream = some d)
    (closed : t.close stream d now = some t') : t'.drafts stream = some { d with text := [] } := by
  unfold Drafts.close at closed
  split at closed
  · rename_i nothing
    cases closed
    rw [there, ← nothing]
  · obtain ⟨found, -, rfl⟩ := Option.map_eq_some_iff.mp closed
    simp only [update_self]

/-- A stream that may hold something is left. -/
theorem Like.closed (like : Like s t) {stream : Nat} {b : BasicStream C} (there : s.streams stream = some b)
    (now : Int) {f : Streaming C → Option (Streaming C)} {g : Drafts → Option Drafts}
    (later : ∀ s' t', Like s' t' → t'.drafts stream = some { b.draft with text := [] } →
      Option.Rel Like (f s') (g t')) :
    Option.Rel Like ((s.flushIfNotEmpty stream b now).bind f) ((t.close stream b.draft now).bind g) := by
  have both := like.flushIfNotEmpty stream b now
  have there' : t.drafts stream = some b.draft := by rw [like.drafts stream, there]; rfl
  generalize s.flushIfNotEmpty stream b now = after at both
  cases closed : t.close stream b.draft now with
  | none =>
      rw [closed] at both
      cases both
      exact .none
  | some t' =>
      rw [closed] at both
      cases both with
      | some like' => exact later _ _ like' (Drafts.close_eq there' closed)

theorem Like.step (like : Like s t) (a : StreamAction) : Option.Rel Like (s.step a) (t.step a) := by
  cases a with
  | logger a =>
      have stepped := like.stands.step a
      simp only [Streaming.step, Drafts.step]
      generalize s.logging.step a = after at stepped
      generalize t.book.step a = after' at stepped
      cases stepped with
      | none => exact .none
      | some stands => exact .some ⟨stands, like.drafts⟩
  | line stream scope lvl =>
      simp only [Streaming.step, Drafts.step, like.drafts stream, like.enabled]
      cases s.streams stream with
      | some b => exact .none
      | none =>
          cases t.enabled scope lvl with
          | none => exact .none
          | some enabled =>
              cases enabled with
              | false => exact .some like
              | true =>
                  have updated := like.stored stream (some ⟨scope, lvl, .new C 0, none⟩)
                  simp only [Option.map_some, BasicStream.draft, MemOstreambuf.text_new] at updated
                  exact .some updated
  | construct stream scope lvl =>
      simp only [Streaming.step, Drafts.step, like.drafts stream, like.enabled]
      cases s.streams stream with
      | some b => exact .none
      | none =>
          cases t.enabled scope lvl with
          | none => exact .none
          | some enabled =>
              have updated := like.stored stream (some ⟨scope, lvl, .new C 0, some enabled⟩)
              simp only [Option.map_some, BasicStream.draft, MemOstreambuf.text_new] at updated
              exact .some updated
  | put stream item now =>
      simp only [Streaming.step, Drafts.step, like.drafts stream]
      cases s.streams stream with
      | none => exact .none
      | some b =>
          have same : b.draft.enabled = b.enabled := rfl
          simp only [Option.map_some, Option.bind_some, same]
          by_cases off : b.enabled = some false
          · rw [if_pos off, if_pos off]
            exact .some like
          · rw [if_neg off, if_neg off]
            exact like.put stream b item now
  | setLevel stream lvl now =>
      simp only [Streaming.step, Drafts.step, like.drafts stream]
      cases there : s.streams stream with
      | none => exact .none
      | some b =>
          have same : b.draft.enabled = b.enabled := rfl
          simp only [Option.map_some, Option.bind_some, same]
          cases b.enabled with
          | none => exact .none
          | some _ =>
              simp only [reduceCtorEq, if_false]
              apply like.closed there now
              intro s' t' like' empty
              have scope : b.draft.scope = b.scope := rfl
              rw [like'.enabled, scope]
              cases t'.enabled b.scope lvl with
              | none => exact .none
              | some enabled =>
                  rw [like'.drafts stream] at empty
                  obtain ⟨b', there', same'⟩ := Option.map_eq_some_iff.mp empty
                  have updated := like'.stored stream (some { b' with level := lvl, enabled := some enabled })
                  have draft : BasicStream.draft { b' with level := lvl, enabled := some enabled } =
                      ⟨b.scope, lvl, [], some enabled⟩ := by
                    unfold BasicStream.draft at same' ⊢
                    injection same' with sameScope _ sameText _
                    rw [sameScope, sameText]
                  rw [Option.map_some, draft] at updated
                  simp only [Option.map_some, there']
                  exact .some updated
  | destroy stream now =>
      simp only [Streaming.step, Drafts.step, like.drafts stream]
      cases there : s.streams stream with
      | none => exact .none
      | some b =>
          have same : b.draft.enabled = b.enabled := rfl
          simp only [Option.map_some, Option.bind_some, same]
          cases b.enabled with
          | none => exact .some (like.stored stream none)
          | some _ =>
              simp only [reduceCtorEq, if_false, Option.map_eq_bind]
              apply like.closed there now
              intro s' t' like' _
              exact .some (like'.stored stream none)

theorem like_start : Like (.start C) .start := ⟨stands_start, fun _ => rfl⟩

/-- **What streams come to.** In whatever order several of them are written to, left and set up, while
scopes and sinks come and go: an entry has the text that was written to its stream since the one
before it, and it is recorded as the draft says. -/
theorem streams_keep_drafts (C : Type) [Container C UInt8] (actions : List StreamAction) :
    Option.Rel Like (run Streaming.step (.start C) actions) (run Drafts.step .start actions) :=
  System.run_rel (fun _ _ a like => like.step a) like_start actions

end Drafting

end AlpacaCore.Jalog
