import PostgresChat.Chat.Service

/-!
# The listener of the `'message'` event

The listener parses the bytes it is given, awaits `handleFrame`, and catches whatever either of them
throws. What the rest of the system does to a handler reaches it in three ways only: how each
awaited promise settles, in the order of the awaits, and whether `socket.send` throws, which it does
while the socket is still connecting. `Surroundings` is one such choice, so a statement about all of
them covers every outcome of every database call and every way to fail in between.
-/

namespace PostgresChat

/-- What is decided outside the handler between two of its turns. -/
structure Surroundings where
  /-- How the awaited promise settles. -/
  settled : Settled
  /-- `socket.send` throws when the handler continues. -/
  sendThrows : Bool

/-- How far a promise has come. -/
inductive PromiseState where
  | fulfilled
  | rejected
  | pending (stage : Stage)
  deriving DecidableEq

/-- How a turn ends when `socket.send` throws or not. -/
def Turn.ending (turn : Turn) (sendThrows : Bool) : Next :=
  match turn.send with
  | some ⟨_, false⟩ => if sendThrows then .threw else turn.next
  | some ⟨_, true⟩ | none => turn.next

/-- The promise of a handler that has come to `next`, as its awaits settle one after another. -/
def Next.promise : Next → List Surroundings → PromiseState
  | .returned, _ => .fulfilled
  | .threw, _ => .rejected
  | .await stage, [] => .pending stage
  | .await stage, s :: rest => ((stage.resume s.settled).ending s.sendThrows).promise rest

/-- The `try` block of the listener. -/
def tryHandleFrame (userId : UserId) (raw : List UInt8) (sendThrows : Bool)
    (rest : List Surroundings) : PromiseState :=
  match Json.parse (Utf8.decode raw) with
  | none => .rejected
  | some json => ((handleFrame userId (.ofJson json)).ending sendThrows).promise rest

/-- The `catch` block of the listener: it parses the bytes again before it logs. -/
def logInvalidFrame (raw : List UInt8) : PromiseState :=
  match Json.parse (Utf8.decode raw) with
  | none => .rejected
  | some _ => .fulfilled

/-- The promise of the listener for a message. -/
def onMessage (userId : UserId) (raw : List UInt8) (sendThrows : Bool)
    (rest : List Surroundings) : PromiseState :=
  match tryHandleFrame userId raw sendThrows rest with
  | .rejected => logInvalidFrame raw
  | state => state

/-! ## Which messages are handled -/

theorem ending_eq_await {turn : Turn} {sendThrows : Bool} {stage : Stage}
    (h : turn.ending sendThrows = .await stage) : turn.next = .await stage := by
  rw [Turn.ending] at h
  split at h
  · split at h
    · cases h
    · exact h
  all_goals exact h

/-- A handler that is still pending after `rest` had more turns to take than `rest` is long. -/
theorem length_lt_of_promise_pending {next : Next} {rest : List Surroundings}
    {stage : Stage} {n : ℕ} (hn : ∀ stage, next = .await stage → stage.turnsLeft ≤ n)
    (h : next.promise rest = .pending stage) : rest.length < n := by
  induction rest generalizing next n with
  | nil =>
    cases next with
    | await stage' => exact Nat.lt_of_lt_of_le stage'.turnsLeft_pos (hn stage' rfl)
    | returned => cases h
    | threw => cases h
  | cons s rest ih =>
    cases next with
    | await stage' =>
      have hle := hn stage' rfl
      have hlt : rest.length < stage'.turnsLeft - 1 := by
        refine ih (fun stage'' hnext ↦ ?_) h
        exact Nat.le_sub_one_of_lt (Stage.turnsLeft_resume (ending_eq_await hnext))
      rw [List.length_cons]
      omega
    | returned => cases h
    | threw => cases h

/-- Whatever the handler does with a message that is a JSON text, the listener's promise is never
rejected, and four settled awaits fulfil it. -/
theorem onMessage_of_parse {raw : List UInt8} {json : Json}
    (hparse : Json.parse (Utf8.decode raw) = some json) (userId : UserId) (sendThrows : Bool)
    (rest : List Surroundings) :
    onMessage userId raw sendThrows rest ≠ .rejected ∧
      (4 ≤ rest.length → onMessage userId raw sendThrows rest = .fulfilled) := by
  have hlog : logInvalidFrame raw = .fulfilled := by rw [logInvalidFrame, hparse]
  rw [onMessage]
  cases htry : tryHandleFrame userId raw sendThrows rest with
  | fulfilled => exact ⟨nofun, fun _ ↦ rfl⟩
  | rejected => exact ⟨by rw [hlog]; nofun, fun _ ↦ hlog⟩
  | pending stage =>
    refine ⟨nofun, fun hlength ↦ absurd hlength (Nat.not_le.mpr ?_)⟩
    rw [tryHandleFrame, hparse] at htry
    exact length_lt_of_promise_pending (fun stage _ ↦ stage.turnsLeft_le) htry

theorem onMessage_of_not_parse {raw : List UInt8} (hparse : Json.parse (Utf8.decode raw) = none)
    (userId : UserId) (sendThrows : Bool) (rest : List Surroundings) :
    onMessage userId raw sendThrows rest = .rejected := by
  rw [onMessage, tryHandleFrame, logInvalidFrame, hparse]

/-- The promise of the listener is fulfilled, and never rejected, whatever surrounds it: exactly for
the messages that are JSON texts. -/
theorem onMessage_resolves_iff (userId : UserId) (raw : List UInt8) :
    (∀ (sendThrows : Bool) (rest : List Surroundings),
      onMessage userId raw sendThrows rest ≠ .rejected ∧
        (4 ≤ rest.length → onMessage userId raw sendThrows rest = .fulfilled)) ↔
      (Json.parse (Utf8.decode raw)).isSome := by
  cases hparse : Json.parse (Utf8.decode raw) with
  | none =>
    refine ⟨fun h ↦ absurd ?_ (h false []).1, fun h ↦ by cases h⟩
    exact onMessage_of_not_parse hparse userId false []
  | some json =>
    exact ⟨fun _ ↦ rfl, fun _ ↦ onMessage_of_parse hparse userId⟩

/-- A message of one opening brace. -/
theorem onMessage_brace_rejects :
    onMessage (JsString.lit "alice") [0x7B] false [] = .rejected := by decide

end PostgresChat
