import Multicrew.Core.Connection

/-!
# Connecting to a host

All attempts of a `ClientConnectionSetup` share the connection that `init` has made, and an event of
the network sets its state whichever attempt it answers. `connect` waits in 30 sleeps while the state
is connecting, and then answers from the state and the text it finds.
-/

namespace Multicrew.Core

open Multicrew.Library

/-- The events of the network that set the state of the connection. -/
inductive AnswerKind
  | connectionRequestAccepted
  | disconnectionNotification
  | connectionBanned
  | remotePortRefused
  | noFreeIncomingConnections
  | invalidPassword
  | modifiedPacket
  | connectionLost
  deriving DecidableEq, Repr

/-- The handlers of `ClientConnectionImpl`. -/
def AnswerKind.receive : AnswerKind → SetState
  | connectionRequestAccepted => ⟨.connected, []⟩
  | disconnectionNotification => ⟨.disconnected, ascii "Host closed connection"⟩
  | connectionBanned => ⟨.disconnected, ascii "Banned from this server"⟩
  | remotePortRefused => ⟨.disconnected, ascii "Remote port refused"⟩
  | noFreeIncomingConnections => ⟨.disconnected, ascii "Sorry, the server is full"⟩
  | invalidPassword => ⟨.disconnected, ascii "Invalid password"⟩
  | modifiedPacket => ⟨.disconnected, ascii "Packets modified. Cheater!"⟩
  | connectionLost => ⟨.disconnected, ascii "Connection lost"⟩

/-- An event, and the attempt whose host it comes from. -/
structure Answer where
  attempt : ℕ
  kind : AnswerKind
  deriving DecidableEq, Repr

/-- A setup after `init`. `timeout` is that of the loop in `connect` while it runs; `attempt` counts the
calls, and `answers` are the events since `init`, the last one first. -/
structure ClientConnectionSetup where
  con : Connection := ({} : Connection).setState ⟨.connecting, []⟩
  errorMessage : Str := []
  timeout : Option ℕ := none
  attempt : ℕ := 0
  answers : List Answer := []
  deriving DecidableEq, Repr

/-- A call of `connect` with what the network says to it, an event, and a pass of the loop. -/
inductive SetupAction
  | connect (ok : Bool)
  | answer (a : Answer)
  | poll
  deriving DecidableEq, Repr

namespace ClientConnectionSetup

variable (d : ClientConnectionSetup)

/-- `ClientConnectionSetup::errorMessage` -/
def message : Str := if 0 < d.errorMessage.length then d.errorMessage else ascii "No error"

/-- `connect` up to its loop. -/
def connect (ok : Bool) : ClientConnectionSetup :=
  { d with
    errorMessage := []
    attempt := d.attempt + 1
    timeout := if ok then some 3000 else none }

/-- An event for the connection. -/
def answer (a : Answer) : ClientConnectionSetup :=
  { d with con := d.con.setState a.kind.receive, answers := a :: d.answers }

/-- The connection is returned at the end of `connect`. -/
def Returns : Prop := d.con.state = .connected

instance : Decidable d.Returns := inferInstanceAs (Decidable (_ = _))

/-- `connect` behind its loop. -/
def finish : ClientConnectionSetup :=
  { d with
    timeout := none
    errorMessage :=
      if d.Returns then d.errorMessage
      else if d.con.error.length = 0 then ascii "Connection timeout"
      else d.con.error }

/-- The loop of `connect` ends. -/
def Ends : Prop := ∃ timeout ∈ d.timeout, ¬ (d.con.state = .connecting ∧ 0 < timeout)

instance : Decidable d.Ends := inferInstanceAs (Decidable (∃ timeout ∈ d.timeout, _))

/-- One step. -/
def step : SetupAction → Option ClientConnectionSetup
  | .connect ok => if d.timeout = none then some (d.connect ok) else none
  | .answer a => if a.attempt ≤ d.attempt then some (d.answer a) else none
  | .poll => d.timeout.map fun timeout =>
      if d.con.state = .connecting ∧ 0 < timeout then { d with timeout := some (timeout - 100) }
      else d.finish

/-- What the host of this attempt has answered. -/
def own : List AnswerKind := (d.answers.filter fun a => a.attempt = d.attempt).map Answer.kind

/-- The text tells why the attempt failed: it is that of an answer, or there was none in all sleeps. -/
def Reason (text : Str) : Prop :=
  (∃ kind ∈ d.own, text = kind.receive.error) ∨
    (d.own = [] ∧ d.timeout = some 0 ∧ text = ascii "Connection timeout")

instance (text : Str) : Decidable (d.Reason text) := inferInstanceAs (Decidable (_ ∨ _))

/-- What a call has to do when it returns: it returns the connection if the host has accepted, and
otherwise tells the reason. -/
def Answers : SetupAction → Prop
  | .connect ok => ok = false → (d.connect ok).message ≠ ascii "No error"
  | .answer _ => True
  | .poll => d.Ends → (d.Returns ↔ .connectionRequestAccepted ∈ d.own) ∧
      (¬ d.Returns → d.Reason d.finish.message)

instance : (a : SetupAction) → Decidable (d.Answers a)
  | .connect _ => inferInstanceAs (Decidable (_ → _))
  | .answer _ => inferInstanceAs (Decidable True)
  | .poll => inferInstanceAs (Decidable (_ → _))

/-- `Connect` succeeds; and if there was an event at all when the loop ends, the last one is of a kind
that the host of this attempt has answered, and is an acceptance if it has accepted. -/
def Proper : SetupAction → Prop
  | .connect ok => ok
  | .answer _ => True
  | .poll => d.Ends → ∀ a, d.answers.head? = some a →
      a.kind ∈ d.own ∧
        (.connectionRequestAccepted ∈ d.own → a.kind = .connectionRequestAccepted)

end ClientConnectionSetup

/-- An initialised setup, its calls of `connect`, and the events of the network. -/
def setupMachine : Machine ClientConnectionSetup SetupAction where
  initial d := d = {}
  step := ClientConnectionSetup.step

namespace ClientConnectionSetup

variable {d t : ClientConnectionSetup} {a : SetupAction}

/-- State and text of the connection are those of the last event. -/
structure Sound (d : ClientConnectionSetup) : Prop where
  state : d.con.state = (d.answers.head?.map fun a => a.kind.receive.state).getD .connecting
  error : d.con.error = (d.answers.head?.map fun a => a.kind.receive.error).getD []

/-- Events have different texts. -/
theorem error_eq_iff (k k' : AnswerKind) : k.receive.error = k'.receive.error ↔ k = k' := by
  cases k <;> cases k' <;> decide

/-- An event connects if it is an acceptance, and else it has a text, which is not that of a timeout. -/
theorem receive_cases (k : AnswerKind) :
    (k = .connectionRequestAccepted ∧ k.receive.state = .connected) ∨
      (k ≠ .connectionRequestAccepted ∧ k.receive.state = .disconnected ∧
        k.receive.error.length ≠ 0 ∧ k.receive.error ≠ ascii "Connection timeout") := by
  cases k <;> decide

/-- Only events touch the connection. -/
theorem Sound.congr (hd : d.Sound) (hcon : t.con = d.con) (hanswers : t.answers = d.answers) :
    t.Sound :=
  ⟨by rw [hcon, hanswers, hd.state], by rw [hcon, hanswers, hd.error]⟩

/-- An event sets both. -/
theorem Sound.step (hd : d.Sound) (h : d.step a = some t) : t.Sound := by
  cases a with
  | connect ok =>
    simp only [ClientConnectionSetup.step, Option.ite_none_right_eq_some, Option.some.injEq] at h
    obtain ⟨-, rfl⟩ := h
    exact hd.congr rfl rfl
  | answer a =>
    simp only [ClientConnectionSetup.step, Option.ite_none_right_eq_some, Option.some.injEq] at h
    obtain ⟨-, rfl⟩ := h
    exact ⟨Connection.setState_state .., Connection.setState_error ..⟩
  | poll =>
    obtain ⟨timeout, -, rfl⟩ := Option.map_eq_some_iff.mp h
    split
    · exact hd.congr rfl rfl
    · exact hd.congr rfl rfl

/-- Without an event there was no answer in all sleeps. -/
theorem Sound.answers_of_silence (hd : d.Sound) (hnone : d.answers = []) (hends : d.Ends) :
    ¬ d.Returns ∧ d.own = [] ∧ d.Reason d.finish.message := by
  have hstate : d.con.state = .connecting := by rw [hd.state, hnone]; rfl
  have herror : d.con.error = [] := by rw [hd.error, hnone]; rfl
  have hreturns : ¬ d.Returns := by
    rw [Returns, hstate]
    decide
  have hown : d.own = [] := by rw [own, hnone]; rfl
  obtain ⟨timeout, htimeout, hstop⟩ := hends
  obtain rfl : timeout = 0 := by
    by_contra hne
    exact hstop ⟨hstate, Nat.pos_of_ne_zero hne⟩
  refine ⟨hreturns, hown, .inr ⟨hown, htimeout, ?_⟩⟩
  have hfinish : d.finish.errorMessage = ascii "Connection timeout" := by
    rw [finish, if_neg hreturns, if_pos (by rw [herror]; rfl)]
  rw [message, hfinish]
  decide

/-- After an event the connection is returned if it was an acceptance, and else its text is told. -/
theorem Sound.returns_iff (hd : d.Sound) {last : Answer} (hlast : d.answers.head? = some last) :
    (d.Returns ↔ last.kind = .connectionRequestAccepted) ∧
      (¬ d.Returns → d.finish.message = last.kind.receive.error) := by
  have hstate : d.con.state = last.kind.receive.state := by rw [hd.state, hlast]; rfl
  have herror : d.con.error = last.kind.receive.error := by rw [hd.error, hlast]; rfl
  obtain ⟨hkind, hconnected⟩ | ⟨hkind, hdisconnected, hlength, -⟩ := receive_cases last.kind
  · have hreturns : d.Returns := hstate.trans hconnected
    exact ⟨iff_of_true hreturns hkind, fun hnot => absurd hreturns hnot⟩
  · have hreturns : ¬ d.Returns := by
      rw [Returns, hstate, hdisconnected]
      decide
    refine ⟨iff_of_false hreturns hkind, fun _ => ?_⟩
    rw [← herror] at hlength ⊢
    have hfinish : d.finish.errorMessage = d.con.error := by
      rw [finish, if_neg hreturns, if_neg hlength]
    rw [message, hfinish, if_pos (Nat.pos_of_ne_zero hlength)]

/-- The text of an event is a reason exactly if the host of this attempt has answered with it. -/
theorem reason_iff {kind : AnswerKind} (hkind : kind ≠ .connectionRequestAccepted) :
    d.Reason kind.receive.error ↔ kind ∈ d.own := by
  obtain ⟨haccepted, -⟩ | ⟨-, -, -, htimeout⟩ := receive_cases kind
  · exact absurd haccepted hkind
  · constructor
    · rintro (⟨kind', hmem, heq⟩ | ⟨-, -, heq⟩)
      · exact (error_eq_iff kind kind').mp heq ▸ hmem
      · exact absurd heq htimeout
    · exact fun hmem => .inl ⟨kind, hmem, rfl⟩

/-- A call answers as it has to exactly if it is proper. -/
theorem Sound.answers_iff (hd : d.Sound) (a : SetupAction) : d.Answers a ↔ d.Proper a := by
  cases a with
  | connect ok => cases ok <;> simp [Answers, Proper, connect, message]
  | answer a => exact Iff.rfl
  | poll =>
    refine forall_congr' fun hends => ?_
    cases hlast : d.answers.head? with
    | none =>
      obtain ⟨hreturns, hown, hreason⟩ := hd.answers_of_silence (List.head?_eq_none_iff.mp hlast) hends
      refine iff_of_true ⟨iff_of_false hreturns ?_, fun _ => hreason⟩ fun a h => by cases h
      rw [hown]
      exact List.not_mem_nil
    | some last =>
      obtain ⟨hreturns, hmessage⟩ := hd.returns_iff hlast
      simp only [Option.some.injEq, forall_eq']
      by_cases hkind : last.kind = .connectionRequestAccepted
      · have hthen := hreturns.mpr hkind
        simp [hthen, hkind]
      · have hnot : ¬ d.Returns := fun h => hkind (hreturns.mp h)
        rw [hmessage hnot, reason_iff hkind]
        simp only [hnot, hkind, false_iff, not_false_eq_true, forall_const, imp_false]
        exact and_comm

end ClientConnectionSetup

/-- In every run the calls of `connect` return the connection exactly when the host they address has
accepted, and else tell the reason, exactly while they are proper. -/
theorem answers_iff_proper (as : List SetupAction) :
    setupMachine.Along (fun d a => (d.step a).isSome → d.Answers a) {} as ↔
      setupMachine.Along (fun d a => (d.step a).isSome → d.Proper a) {} as :=
  Machine.along_iff_along (I := ClientConnectionSetup.Sound)
    (fun _ a hd => forall_congr' fun _ => hd.answers_iff a) (fun _ _ _ hd _ h => hd.step h)
    ⟨rfl, rfl⟩ as

/-- A call that hears nothing sleeps 30 times. -/
example : (setupMachine.run {} (.connect true :: List.replicate 31 .poll)).map
    (fun d => (d.timeout, d.message)) = some (none, ascii "Connection timeout") := by decide

/-- A host refuses, and the next one is asked. -/
def secondHostRun : List SetupAction :=
  [.connect true, .answer ⟨1, .remotePortRefused⟩, .poll, .connect true, .poll]

/-- The second call returns at once, without an answer, and tells why the first one failed. -/
theorem secondHostRun_not_answers :
    ¬ setupMachine.Along (fun d a => (d.step a).isSome → d.Answers a) {} secondHostRun := by
  decide

end Multicrew.Core
