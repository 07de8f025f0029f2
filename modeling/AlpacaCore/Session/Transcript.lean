import AlpacaCore.Session.Pipeline

/-!
All that is sent for a frame, in the loop of an instance.

`Meaning` has what ends the answer to an op. What a `stream` sends before it are the tokens of the
session it makes of the instance, and `Abort_check` may cut them short. `Writes` goes along with a
coroutine and has what it has sent so far; all it will send can be told from the frame that was
taken, and from the one it looks at meanwhile, if it does.
-/

namespace AlpacaCore.Session

open AlpacaCore.Schema
open AlpacaCore.System (Coro Reachable Free run reachable_of_run)

def OpStream.StreamToken.frame (w : String) : Frame := ⟨OpStream.StreamToken.id, .string w⟩

/-- What is sent for the frame before its answer. -/
def Dummy.tokens (data : List String) (f : Frame) : List Frame :=
  match OpRun.Params.frameOptTo f, OpStream.Params.frameOptTo f with
  | .ok none, .ok (some params) => (createSession data params).words.map OpStream.StreamToken.frame
  | _, _ => []

/-- The frame that was looked at meanwhile, if there is one yet, and what was sent. -/
abbrev Written : Type := Option Frame × List Frame

inductive Writes : Written → (op : Op) → op.Res → Written → Prop where
  | push {other : Option Frame} {sent : List Frame} {f : Frame} :
      Writes (other, sent) (.io (.push f)) () (other, sent ++ [f])
  | look {sent : List Frame} : Writes (none, sent) (.io .get) none (none, sent)
  | grab {sent : List Frame} {f : Frame} : Writes (none, sent) (.io .get) (some f) (some f, sent)

/-- What a stream ends with when it has looked at this frame. -/
def broken (other : Frame) : Frame :=
  if Abort.frameIs other then ⟨OpStream.Return.id, .null⟩
  else ⟨Error.id, .string ("Unexpected frame: " ++ other.op)⟩

/-- All tokens were sent and then the answer; or not all of them, and then how the stream breaks off. -/
def Complete (tokens : List Frame) (g : Frame) : Written → Prop
  | (none, sent) => sent = tokens ++ [g]
  | (some other, sent) => ∃ part, part <+: tokens ∧ part ≠ tokens ∧ sent = part ++ [broken other]

/-- From here on the coroutine writes this. -/
abbrev Writing (data : List String) (tokens : List Frame) (g : Frame) (p : Written) (c : Program Wait) :
    Prop :=
  c.Follows Writes (fun _ _ => True) (fun p wait => wait = .runInstance data ∧ Complete tokens g p)
    (fun _ _ => False) p

/-! ### The loop of an instance -/

section Block

variable {data : List String} {tokens : List Frame} {g : Frame}

/-- The block of the loop replies with the rest. -/
abbrev Replying (tokens : List Frame) (g : Frame) (p : Written) (block : Program Outcome) : Prop :=
  block.Follows Writes (fun _ _ => True)
    (fun p outcome => ∃ f, outcome = .reply f ∧ Complete tokens g (p.1, p.2 ++ [f]))
    (fun p x => ∃ what, x = .runtime what ∧ Complete tokens g (p.1, p.2 ++ [⟨Error.id, .string what⟩])) p

theorem Replying.attempt {p : Written} {block : Program Outcome} (replying : Replying tokens g p block) :
    Writing data tokens g p (attempt (.runInstance data) block) := by
  refine Coro.Follows.bind (?_ : Coro.Follows _ _ (fun p outcome => ∃ f, outcome = .reply f ∧
    Complete tokens g (p.1, p.2 ++ [f])) (fun _ _ => False) p _) ?_
  · apply Coro.Follows.tryCatch replying
    rintro p x ⟨what, rfl, complete⟩
    exact ⟨_, rfl, complete⟩
  · rintro ⟨other, sent⟩ outcome ⟨f, rfl, complete⟩
    intro r _
    exact ⟨(other, sent ++ [f]), .push, rfl, complete⟩

/-- What `Abort_check` takes breaks the stream off. -/
theorem Replying.abortCheck {sent : List Frame} {f : Bool → Program Outcome} (part : sent <+: tokens)
    (short : sent ≠ tokens) (rest : Replying tokens g (none, sent) (f false))
    (aborted : ∀ other, Abort.frameIs other = true → Replying tokens g (some other, sent) (f true)) :
    Replying tokens g (none, sent) (abortCheck >>= f) := by
  intro found _
  cases found with
  | none => exact ⟨_, .look, rest⟩
  | some other =>
      refine ⟨_, .grab, ?_⟩
      change ((if Abort.frameIs other = true then .ret true
        else Session.throwEx ("Unexpected frame: " ++ other.op) : Program Bool) >>= f).Follows _ _ _ _ _
      split
      · rename_i abort
        exact aborted other abort
      · rename_i unexpected
        exact ⟨_, rfl, sent, part, short, by rw [broken, if_neg unexpected]⟩

/-- The tokens that are left, after those that were sent. -/
theorem runStream_replying {thrown : Option String} (before words : List String)
    (whole : tokens = (before ++ words).map OpStream.StreamToken.frame)
    (ends : g = match thrown with
      | some what => ⟨Error.id, .string what⟩
      | none => ⟨OpStream.Return.id, .null⟩) :
    Replying tokens g (none, before.map OpStream.StreamToken.frame)
      (do return .reply (← Dummy.runStream words thrown)) := by
  induction words generalizing before with
  | nil =>
      rw [List.append_nil] at whole
      cases thrown with
      | some what => exact ⟨what, rfl, by rw [ends, whole]; rfl⟩
      | none => exact ⟨_, rfl, by rw [ends, whole]; rfl⟩
  | cons w words ih =>
      have sent : before.map OpStream.StreamToken.frame <+: tokens := by
        rw [whole, List.map_append]
        exact List.prefix_append _ _
      have short : before.map OpStream.StreamToken.frame ≠ tokens := by
        intro same
        have lengths := congrArg List.length (same.trans whole)
        simp at lengths
      unfold Dummy.runStream
      rw [bind_assoc]
      apply Replying.abortCheck sent short
      · intro r _
        refine ⟨_, .push, ?_⟩
        have later := ih (before ++ [w]) (by rw [whole, List.append_assoc]; rfl)
        rw [List.map_append] at later
        exact later
      · intro other abort
        exact ⟨_, rfl, _, sent, short, by rw [broken, if_pos abort]⟩

/-- A computation that both the block and its meaning begin with; where it throws there are no tokens. -/
theorem Replying.ofExcept_bind {A : Type} {x : Except Exception A} {f : A → Program Outcome}
    {meaning : A → Except Exception (Frame × Wait)} {wait wait' : Wait}
    (meant : recover wait (x >>= meaning) = .ok (g, wait'))
    (nothing : ∀ e, x = .error e → tokens = [])
    (rest : ∀ a, x = .ok a → recover wait (meaning a) = .ok (g, wait') →
      Replying tokens g (none, []) (f a)) :
    Replying tokens g (none, []) (Coro.ofExcept x >>= f) := by
  cases x with
  | ok a => exact rest a rfl meant
  | error e =>
      rw [nothing e rfl]
      cases e with
      | runtime what =>
          cases meant
          exact ⟨what, rfl, rfl⟩
      | json what => cases meant

/-- Without tokens there is only the answer. -/
theorem Replying.reply {x : Except Exception Frame} {wait wait' : Wait}
    (meant : recover wait (do return (← x, wait)) = .ok (g, wait')) (nothing : tokens = []) :
    Replying tokens g (none, []) (do return .reply (← x)) := by
  apply Replying.ofExcept_bind meant fun _ _ => nothing
  intro f _ same
  cases same
  exact ⟨_, rfl, by rw [nothing]; rfl⟩

theorem runInstance_writing {env : Env} {data : List String} {f g : Frame} {wait : Wait}
    (meant : answer env (.runInstance data) f = .ok (g, wait)) :
    Writing data (Dummy.tokens data f) g (none, []) (Dummy.runInstance data f) := by
  apply Replying.attempt
  apply Replying.ofExcept_bind meant
  · intro e failed
    unfold Dummy.tokens
    rw [failed]
  · intro params decoded meant
    cases params with
    | some params =>
        apply Replying.reply meant
        unfold Dummy.tokens
        rw [decoded]
    | none =>
        apply Replying.ofExcept_bind meant
        · intro e failed
          unfold Dummy.tokens
          rw [decoded, failed]
        · intro params decoded' meant
          cases params with
          | some params =>
              apply runStream_replying [] _ (by unfold Dummy.tokens; rw [decoded, decoded']; rfl)
              simp only at meant
              cases thrown : (Dummy.createSession data params).thrown with
              | some what =>
                  rw [thrown] at meant
                  cases meant
                  rfl
              | none =>
                  rw [thrown] at meant
                  cases meant
                  rfl
          | none => exact Replying.reply meant (by unfold Dummy.tokens; rw [decoded, decoded'])

end Block

/-! ### The net -/

/-- What the session has sent for the client's frame with this number. -/
def Net.framesFor (n : Net) (k : Nat) : List Frame := (n.sent.filter fun sent => sent.op == k).map Sent.frame

/-- The frame that the session has looked at while it served the one with this number. -/
def Net.lookedAt (n : Net) (k : Nat) : Option Frame :=
  if k < n.taken ∧ k + 1 ∉ n.served then n.asked[k]? else none

/-- No frame is numbered before its number is taken. -/
structure Counted (n : Net) : Prop where
  queued : n.toService <:+ n.asked
  serving : n.serving ≤ n.taken
  served : ∀ k ∈ n.served, k ≤ n.serving
  sent : ∀ sent ∈ n.sent, sent.op ≤ n.taken

section Steps

variable {cfg : Config} {n n' : Net} {data : List String} {tokens : List Frame} {g : Frame} {p : Written}

/-- The session got further, and has sent this. -/
structure GoesOn (n : Net) (new : List Frame) (n' : Net) : Prop where
  served : n'.served = n.served
  asked : n'.asked = n.asked
  received : n'.received = n.received
  toClient : n'.toClient = n.toClient ++ new.map (Sent.mk n.serving)
  toService : n'.toService = n.toService ∨ ∃ f, n.toService = f :: n'.toService

theorem act_sent {limit k : Nat} {input input' : List Frame} {output output' : List Sent} {op : Io}
    {r : op.Res} (acted : op.act limit (Sent.mk k) input output = some (r, input', output')) :
    ∃ new : List Frame, output' = output ++ new.map (Sent.mk k) ∧ (input' = input ∨ ∃ f, input = f :: input') := by
  cases op with
  | push f =>
      simp only [Io.act] at acted
      split at acted
      · cases acted
        exact ⟨[f], rfl, .inl rfl⟩
      · cases acted
  | put f =>
      simp only [Io.act] at acted
      split at acted
      · cases acted
        exact ⟨[f], rfl, .inl rfl⟩
      · cases acted
        exact ⟨[], by simp, .inl rfl⟩
  | poll =>
      simp only [Io.act] at acted
      split at acted
      · cases acted
      · cases acted
        exact ⟨[], by simp, .inr ⟨_, rfl⟩⟩
  | get =>
      simp only [Io.act] at acted
      split at acted
      · cases acted
        exact ⟨[], by simp, .inl rfl⟩
      · cases acted
        exact ⟨[], by simp, .inr ⟨_, rfl⟩⟩

/-- A session takes a frame, or gets further. -/
theorem stepSession_cases {found : Bool} (stepped : n.stepSession cfg found = some n') :
    (∃ wait f, Takes cfg n n' wait f) ∨ ∃ new, GoesOn n new n' := by
  have still : ∀ {n' : Net}, n'.served = n.served → n'.asked = n.asked → n'.received = n.received →
      n'.toClient = n.toClient → n'.toService = n.toService → ∃ new, GoesOn n new n' :=
    fun served asked received toClient toService =>
      ⟨[], served, asked, received, by rw [toClient]; simp, .inl toService⟩
  unfold Net.stepSession at stepped
  split at stepped
  · cases stepped
  · split at stepped
    · cases stepped
    · cases stepped
      exact .inr (still rfl rfl rfl rfl rfl)
  · rename_i wait notFetch waits
    split at stepped
    · cases stepped
    · rename_i f rest next
      cases stepped
      have forClient : wait.forClient = true := by
        cases wait with
        | fetch splice => exact absurd rfl (notFetch splice)
        | _ => rfl
      exact .inl ⟨wait, f, waits, forClient, next, rfl⟩
  · obtain ⟨⟨r, toService, toClient⟩, acted, same⟩ := Option.map_eq_some_iff.mp stepped
    cases same
    obtain ⟨new, sent, queued⟩ := act_sent acted
    exact .inr ⟨new, rfl, rfl, rfl, sent, queued⟩
  · obtain ⟨⟨r, fromManager, toManager⟩, -, same⟩ := Option.map_eq_some_iff.mp stepped
    cases same
    exact .inr (still rfl rfl rfl rfl rfl)
  · cases stepped
    exact .inr (still rfl rfl rfl rfl rfl)
  · split at stepped
    · split at stepped
      · cases stepped
        exact .inr (still rfl rfl rfl rfl rfl)
      · cases stepped
    · cases stepped
      exact .inr (still rfl rfl rfl rfl rfl)

/-- What is written goes on, or is complete when the next frame is taken. -/
theorem Writing.step {found : Bool} (writing : Writing data tokens g p n.session)
    (stepped : n.stepSession cfg found = some n') :
    (Complete tokens g p ∧ ∃ f, Takes cfg n n' (.runInstance data) f) ∨
    ∃ p' new, GoesOn n new n' ∧ Writing data tokens g p' n'.session ∧ p'.2 = p.2 ++ new ∧
      (p'.1 = p.1 ∧ n'.toService = n.toService ∨
        p.1 = none ∧ ∃ other, p'.1 = some other ∧ n.toService = other :: n'.toService) := by
  unfold Net.stepSession at stepped
  split at stepped
  · cases stepped
  · rename_i splice waits
    rw [waits] at writing
    cases writing.1
  · rename_i wait notFetch waits
    rw [waits] at writing
    obtain ⟨rfl, complete⟩ := writing
    split at stepped
    · cases stepped
    · rename_i f rest next
      cases stepped
      exact .inl ⟨complete, f, waits, rfl, next, rfl⟩
  · rename_i op next calls
    obtain ⟨⟨r, toService, toClient⟩, acted, same⟩ := Option.map_eq_some_iff.mp stepped
    cases same
    rw [calls] at writing
    obtain ⟨p', moved, later⟩ := writing r trivial
    cases moved with
    | @push other sent f =>
        simp only [Io.act] at acted
        split at acted
        · cases acted
          exact .inr ⟨_, [f], ⟨rfl, rfl, rfl, rfl, .inl rfl⟩, later, rfl, .inl ⟨rfl, rfl⟩⟩
        · cases acted
    | look =>
        simp only [Io.act] at acted
        split at acted
        · rename_i empty
          cases acted
          exact .inr ⟨_, [], ⟨rfl, rfl, rfl, by simp, .inl empty.symm⟩, later, by simp,
            .inl ⟨rfl, empty.symm⟩⟩
        · cases acted
    | grab =>
        simp only [Io.act] at acted
        split at acted
        · cases acted
        · rename_i waiting
          cases acted
          exact .inr ⟨_, [], ⟨rfl, rfl, rfl, by simp, .inr ⟨_, waiting⟩⟩, later, by simp,
            .inr ⟨rfl, _, rfl, waiting⟩⟩
  · rename_i op next calls
    obtain ⟨⟨r, fromManager, toManager⟩, -, -⟩ := Option.map_eq_some_iff.mp stepped
    rw [calls] at writing
    obtain ⟨p', moved, -⟩ := writing r trivial
    cases moved
  · rename_i next calls
    rw [calls] at writing
    obtain ⟨p', moved, -⟩ := writing () trivial
    cases moved
  · rename_i params next calls
    rw [calls] at writing
    obtain ⟨p', moved, -⟩ := writing none trivial
    cases moved

/-- What is not done by the session. -/
structure Apart (n n' : Net) : Prop where
  session : n'.session = n.session
  served : n'.served = n.served
  sent : n'.sent = n.sent
  pushes : ∃ new, n'.toService = n.toService ++ new ∧ n'.asked = n.asked ++ new

theorem step_cases {action : Action} (stepped : n.step cfg action = some n') :
    (∃ found, action = .session found ∧ n.stepSession cfg found = some n') ∨ Apart n n' := by
  cases action with
  | push f =>
      obtain ⟨-, rfl⟩ := pushed stepped
      exact .inr ⟨rfl, rfl, rfl, [f], rfl, rfl⟩
  | poll =>
      obtain ⟨sent, rest, next, rfl⟩ := polled stepped
      exact .inr ⟨rfl, rfl, by simp [Net.sent, next], [], by simp, by simp⟩
  | session found => exact .inl ⟨found, rfl, stepped⟩
  | manager =>
      have serves := stepManager_serves stepped
      right
      constructor
      · exact serves.session
      · exact serves.served
      · rw [Net.sent, serves.received, serves.toClient]
        rfl
      · exact ⟨[], by rw [serves.toService, List.append_nil], by rw [serves.asked, List.append_nil]⟩

/-! ### Numbers -/

theorem taken_le (n : Net) : n.taken ≤ n.asked.length := Nat.sub_le _ _

/-- The frame in front is the next one to be taken. -/
theorem Counted.next {f : Frame} {rest : List Frame} (counted : Counted n)
    (next : n.toService = f :: rest) : n.asked[n.taken]? = some f ∧ n.taken < n.asked.length := by
  obtain ⟨before, asked⟩ := counted.queued
  rw [next] at asked
  have taken : n.taken = before.length := by
    rw [Net.taken, next, ← asked, List.length_append]
    omega
  rw [taken, ← asked]
  simp

theorem Apart.taken (apart : Apart n n') (queued : n.toService <:+ n.asked) : n'.taken = n.taken := by
  obtain ⟨new, toService, asked⟩ := apart.pushes
  have length := queued.length_le
  rw [Net.taken, toService, asked, List.length_append, List.length_append, Net.taken]
  omega

theorem Apart.queued (apart : Apart n n') (queued : n.toService <:+ n.asked) :
    n'.toService <:+ n'.asked := by
  obtain ⟨new, toService, asked⟩ := apart.pushes
  obtain ⟨before, all⟩ := queued
  exact ⟨before, by rw [toService, asked, ← all, List.append_assoc]⟩

theorem Apart.lookedAt (apart : Apart n n') (queued : n.toService <:+ n.asked) (k : Nat) :
    n'.lookedAt k = n.lookedAt k := by
  obtain ⟨new, -, asked⟩ := apart.pushes
  rw [Net.lookedAt, Net.lookedAt, apart.taken queued, apart.served]
  split
  · rename_i looked
    rw [asked, List.getElem?_append_left (Nat.lt_of_lt_of_le looked.1 (taken_le n))]
  · rfl

theorem GoesOn.serving {new : List Frame} (goesOn : GoesOn n new n') : n'.serving = n.serving := by
  rw [Net.serving, goesOn.served]
  rfl

theorem GoesOn.sent {new : List Frame} (goesOn : GoesOn n new n') :
    n'.sent = n.sent ++ new.map (Sent.mk n.serving) := by
  rw [Net.sent, goesOn.received, goesOn.toClient, Net.sent, List.append_assoc]

theorem GoesOn.queued {new : List Frame} (goesOn : GoesOn n new n')
    (queued : n.toService <:+ n.asked) : n'.toService <:+ n'.asked := by
  rw [goesOn.asked]
  rcases goesOn.toService with same | ⟨f, next⟩
  · rw [same]
    exact queued
  · exact (List.suffix_cons f n'.toService).trans (next ▸ queued)

theorem GoesOn.taken {new : List Frame} (goesOn : GoesOn n new n')
    (queued : n.toService <:+ n.asked) : n.taken ≤ n'.taken := by
  have length := queued.length_le
  rw [Net.taken, Net.taken, goesOn.asked]
  rcases goesOn.toService with same | ⟨f, next⟩
  · exact Nat.le_of_eq (congrArg (n.asked.length - ·.length) same.symm)
  · rw [next, List.length_cons]
    omega

/-- A frame that is looked at is taken. -/
theorem GoesOn.taken_succ {new : List Frame} {f : Frame} (goesOn : GoesOn n new n')
    (queued : n.toService <:+ n.asked) (next : n.toService = f :: n'.toService) :
    n'.taken = n.taken + 1 := by
  have length := queued.length_le
  rw [next, List.length_cons] at length
  rw [Net.taken, Net.taken, goesOn.asked, next, List.length_cons]
  omega

theorem GoesOn.framesFor {new : List Frame} (goesOn : GoesOn n new n') (k : Nat) :
    n'.framesFor k = n.framesFor k ++ if n.serving = k then new else [] := by
  unfold Net.framesFor
  rw [goesOn.sent, List.filter_append, List.map_append, List.filter_map]
  congr 1
  by_cases same : n.serving = k
  · simp [same, Function.comp_def]
  · simp [same, Function.comp_def]

/-- What was looked at before the session goes on. -/
theorem GoesOn.lookedAt {new : List Frame} (goesOn : GoesOn n new n') (counted : Counted n) {k : Nat}
    (before : k < n.taken) : n'.lookedAt k = n.lookedAt k := by
  have later := Nat.lt_of_lt_of_le before (goesOn.taken counted.queued)
  rw [Net.lookedAt, Net.lookedAt, goesOn.served, goesOn.asked]
  simp only [before, later, true_and]

theorem Takes.counts {wait : Wait} {f : Frame} (takes : Takes cfg n n' wait f)
    (queued : n.toService <:+ n.asked) :
    n'.serving = n.taken + 1 ∧ n'.taken = n.taken + 1 ∧ n'.toService <:+ n'.asked := by
  have asked : n'.asked = n.asked := by rw [takes.same]
  have length := queued.length_le
  rw [takes.next, List.length_cons] at length
  refine ⟨?_, ?_, ?_⟩
  · rw [takes.same]
    simp [Net.serving]
  · rw [Net.taken, Net.taken, asked, takes.next, List.length_cons]
    omega
  · rw [asked]
    exact (List.suffix_cons f n'.toService).trans (takes.next ▸ queued)

theorem Takes.sent_eq {wait : Wait} {f : Frame} (takes : Takes cfg n n' wait f) : n'.sent = n.sent := by
  rw [takes.same]
  rfl

theorem Takes.served_eq {wait : Wait} {f : Frame} (takes : Takes cfg n n' wait f) :
    n'.served = n.served ++ [n.taken + 1] := by
  rw [takes.same]

/-- What was looked at before the session takes a frame again. -/
theorem Takes.lookedAt {wait : Wait} {f : Frame} (takes : Takes cfg n n' wait f) (counted : Counted n)
    {k : Nat} (before : k ≤ n.taken) : n'.lookedAt k = n.lookedAt k := by
  have asked : n'.asked = n.asked := by rw [takes.same]
  obtain ⟨-, taken, -⟩ := takes.counts counted.queued
  rw [Net.lookedAt, Net.lookedAt, taken, asked, takes.served_eq]
  rcases Nat.eq_or_lt_of_le before with rfl | less
  · simp
  · have other : k ≠ n.taken := Nat.ne_of_lt less
    have later := Nat.lt_succ_of_lt less
    simp [less, later, other]

theorem Counted.step {action : Action} (counted : Counted n) (stepped : n.step cfg action = some n') :
    Counted n' := by
  rcases step_cases stepped with ⟨found, -, stepped⟩ | apart
  · rcases stepSession_cases stepped with ⟨wait, f, takes⟩ | ⟨new, goesOn⟩
    · obtain ⟨serving, taken, queued⟩ := takes.counts counted.queued
      have small := counted.serving
      constructor
      · exact queued
      · exact Nat.le_of_eq (serving.trans taken.symm)
      · rw [takes.served_eq, serving]
        intro k member
        rcases List.mem_append.mp member with before | last
        · exact Nat.le_succ_of_le (Nat.le_trans (counted.served k before) small)
        · exact Nat.le_of_eq (List.mem_singleton.mp last)
      · rw [takes.sent_eq, taken]
        exact fun sent member => Nat.le_succ_of_le (counted.sent sent member)
    · have more := goesOn.taken counted.queued
      have small := counted.serving
      constructor
      · exact goesOn.queued counted.queued
      · rw [goesOn.serving]
        exact Nat.le_trans small more
      · rw [goesOn.served, goesOn.serving]
        exact counted.served
      · rw [goesOn.sent]
        intro sent member
        rcases List.mem_append.mp member with before | last
        · exact Nat.le_trans (counted.sent sent before) more
        · obtain ⟨f, -, rfl⟩ := List.mem_map.mp last
          exact Nat.le_trans small more
  · have taken := apart.taken counted.queued
    have serving : n'.serving = n.serving := by
      rw [Net.serving, apart.served]
      rfl
    constructor
    · exact apart.queued counted.queued
    · rw [serving, taken]
      exact counted.serving
    · rw [apart.served, serving]
      exact counted.served
    · rw [apart.sent, taken]
      exact counted.sent

theorem counted_start (service : Service) : Counted (.start service) := by
  constructor
  · exact List.suffix_refl _
  · exact Nat.le_refl _
  · intro k member
    exact Nat.le_of_eq (List.mem_singleton.mp member)
  · intro sent member
    cases member

end Steps

/-! ### Transcripts -/

/-- So far the session has sent this for the frame with this number. -/
inductive Inscribed (k : Nat) (data : List String) (tokens : List Frame) (g : Frame) (n : Net) : Prop where
  | serving {p : Written} (serving : n.serving = k) (sent : n.framesFor k = p.2)
      (looked : n.lookedAt k = p.1) (next : p.1 = none → n.taken = k)
      (writing : Writing data tokens g p n.session) : Inscribed k data tokens g n
  | past (served : k < n.serving) (complete : Complete tokens g (n.lookedAt k, n.framesFor k)) :
      Inscribed k data tokens g n

section Inscribed

variable {cfg : Config} {n n' : Net} {data : List String} {tokens : List Frame} {g : Frame} {k : Nat}

theorem Inscribed.step {action : Action} (inscribed : Inscribed k data tokens g n) (counted : Counted n)
    (stepped : n.step cfg action = some n') : Inscribed k data tokens g n' := by
  have small := counted.serving
  rcases step_cases stepped with ⟨found, -, stepped⟩ | apart
  · cases inscribed with
    | @serving p serving sent looked next writing =>
        rcases writing.step stepped with ⟨complete, f, takes⟩ | ⟨p', new, goesOn, writing', more, grabbed⟩
        · obtain ⟨serving', -, -⟩ := takes.counts counted.queued
          apply Inscribed.past
          · omega
          · rw [takes.lookedAt counted (by omega), looked, Net.framesFor, takes.sent_eq]
            rw [Net.framesFor] at sent
            rw [sent]
            exact complete
        · have sent' : n'.framesFor k = p'.2 := by rw [goesOn.framesFor, if_pos serving, sent, more]
          apply Inscribed.serving (goesOn.serving.trans serving) sent' _ _ writing'
          · rcases grabbed with ⟨same, still⟩ | ⟨first, other, same, front⟩
            · rw [same, ← looked, Net.lookedAt, Net.lookedAt, Net.taken, Net.taken, still, goesOn.asked,
                goesOn.served]
            · have taken := next first
              have taken' := goesOn.taken_succ counted.queued front
              have fresh : k + 1 ∉ n.served := fun member => by
                have below := counted.served _ member
                omega
              rw [same, Net.lookedAt, if_pos ⟨by omega, by rw [goesOn.served]; exact fresh⟩, goesOn.asked,
                ← taken]
              exact (counted.next front).1
          · intro none
            rcases grabbed with ⟨same, still⟩ | ⟨-, other, same, -⟩
            · rw [Net.taken, still, goesOn.asked]
              exact next (same ▸ none)
            · cases same.symm.trans none
    | past served complete =>
        rcases stepSession_cases stepped with ⟨wait, f, takes⟩ | ⟨new, goesOn⟩
        · obtain ⟨serving', -, -⟩ := takes.counts counted.queued
          apply Inscribed.past
          · omega
          · rw [takes.lookedAt counted (by omega), Net.framesFor, takes.sent_eq]
            exact complete
        · apply Inscribed.past
          · rw [goesOn.serving]
            exact served
          · rw [goesOn.framesFor, if_neg (by omega), List.append_nil, goesOn.lookedAt counted (by omega)]
            exact complete
  · have serving' : n'.serving = n.serving := by
      rw [Net.serving, apart.served]
      rfl
    have frames : n'.framesFor k = n.framesFor k := by
      rw [Net.framesFor, apart.sent]
      rfl
    have looks := apart.lookedAt counted.queued k
    cases inscribed with
    | serving serving sent looked next writing =>
        apply Inscribed.serving (serving'.trans serving) (frames.trans sent) (looks.trans looked)
        · rw [apart.taken counted.queued]
          exact next
        · rw [apart.session]
          exact writing
    | past served complete =>
        apply Inscribed.past
        · rw [serving']
          exact served
        · rw [looks, frames]
          exact complete

/-- It pushes, or looks for a frame; it does nothing else. -/
theorem Writing.calls {op : Op} {next : op.Res → Program Wait}
    (writing : Writing data tokens g p (.call op next)) :
    (∃ f, op = .io (.push f)) ∨ op = .io .get := by
  cases op with
  | io op =>
      cases op with
      | push f => exact .inl ⟨f, rfl⟩
      | get => exact .inr rfl
      | put f =>
          obtain ⟨p', moved, -⟩ := writing () trivial
          cases moved
      | poll =>
          obtain ⟨p', moved, -⟩ := writing ⟨"", .null⟩ trivial
          cases moved
  | amgrio op =>
      cases op with
      | push f =>
          obtain ⟨p', moved, -⟩ := writing () trivial
          cases moved
      | put f =>
          obtain ⟨p', moved, -⟩ := writing () trivial
          cases moved
      | poll =>
          obtain ⟨p', moved, -⟩ := writing ⟨"", .null⟩ trivial
          cases moved
      | get =>
          obtain ⟨p', moved, -⟩ := writing none trivial
          cases moved
  | connect =>
      obtain ⟨p', moved, -⟩ := writing () trivial
      cases moved
  | find params =>
      obtain ⟨p', moved, -⟩ := writing none trivial
      cases moved

/-- What is written so far can be completed without a further look. -/
theorem Writing.completed {c : Program Wait} (writing : Writing data tokens g p c) :
    ∃ all, Complete tokens g (p.1, all) ∧ p.2 <+: all := by
  induction c generalizing p with
  | ret wait => exact ⟨p.2, writing.2, List.prefix_refl _⟩
  | throw x => exact writing.elim
  | call op next ih =>
      rcases writing.calls with ⟨f, rfl⟩ | rfl
      · obtain ⟨p', moved, later⟩ := writing () trivial
        cases moved
        obtain ⟨all, complete, rest⟩ := ih () later
        exact ⟨all, complete, (List.prefix_append _ _).trans rest⟩
      · -- nothing is there when it looks
        obtain ⟨p', moved, later⟩ := writing none trivial
        cases moved
        exact ih none later

/-- What was sent for a frame that means this. -/
structure Transcript (k : Nat) (tokens : List Frame) (g : Frame) (n : Net) : Prop where
  initial : ∃ all, Complete tokens g (n.lookedAt k, all) ∧ n.framesFor k <+: all
  /-- Nothing is missing once the session waits again or has taken a further frame in its loop. -/
  whole : n.Waiting ∨ k < n.serving → Complete tokens g (n.lookedAt k, n.framesFor k)

theorem Inscribed.transcript (inscribed : Inscribed k data tokens g n) : Transcript k tokens g n := by
  constructor
  · cases inscribed with
    | serving serving sent looked next writing =>
        obtain ⟨all, complete, first⟩ := writing.completed
        rw [looked, sent]
        exact ⟨all, complete, first⟩
    | past served complete => exact ⟨_, complete, List.prefix_refl _⟩
  · intro done
    cases inscribed with
    | serving serving sent looked next writing =>
        rcases done with ⟨wait, waits, -⟩ | served
        · rw [waits] at writing
          rw [looked, sent]
          exact writing.2
        · omega
    | past served complete => exact complete

/-- As long as no other frame was taken. -/
theorem Transcript.undisturbed (transcript : Transcript k tokens g n) (taken : n.taken = k) :
    n.framesFor k <+: tokens ++ [g] ∧ (n.Waiting → n.framesFor k = tokens ++ [g]) := by
  have looked : n.lookedAt k = none := by
    rw [Net.lookedAt, if_neg]
    omega
  constructor
  · obtain ⟨all, complete, first⟩ := transcript.initial
    rw [looked] at complete
    exact first.trans (complete ▸ List.prefix_refl _)
  · intro waiting
    have complete := transcript.whole (.inl waiting)
    rw [looked] at complete
    exact complete

/-- No frame is numbered like the one that is taken. -/
theorem Takes.inscribed {f : Frame} {wait : Wait} (takes : Takes cfg n n' (.runInstance data) f)
    (counted : Counted n) (meant : answer cfg.env (.runInstance data) f = .ok (g, wait)) :
    Inscribed (n.taken + 1) data (Dummy.tokens data f) g n' := by
  have nothing : n'.framesFor (n.taken + 1) = [] := by
    rw [Net.framesFor, takes.sent_eq, List.filter_eq_nil_iff.mpr, List.map_nil]
    intro sent member same
    have small := counted.sent sent member
    have equal : sent.op = n.taken + 1 := by simpa using same
    omega
  obtain ⟨serving, taken, -⟩ := takes.counts counted.queued
  have unseen : n'.lookedAt (n.taken + 1) = none := by
    rw [Net.lookedAt, if_neg]
    omega
  have writing : Writing data (Dummy.tokens data f) g (none, []) n'.session := by
    rw [takes.same]
    exact runInstance_writing meant
  exact .serving serving nothing unseen (fun _ => taken) writing

end Inscribed

end AlpacaCore.Session
