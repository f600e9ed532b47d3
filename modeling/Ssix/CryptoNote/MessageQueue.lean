import Mathlib.Logic.Relation
import Ssix.CryptoNote.Types

/-!
# MessageQueue — one subscriber queue on the cooperative dispatcher

`MessageQueue<MessageType>` holds a `std::queue`, a `System::Event` and a `stopped` flag. `push`
hands the dispatcher a closure that enqueues the message and sets the event; `stop` sets the flag
and the event; the single consumer calls `front()` and then `pop()`, each of which first runs
`wait()`:

* a non-empty queue returns at once;
* an empty queue throws `InterruptedException` when stopped, and otherwise clears the event and
  suspends in `event.wait()` until the event is set, then throws when stopped and returns when the
  event is set.

`System::Event` is not among the sources; as the dispatcher's contract has it, `set` marks the
event and makes its waiters runnable, `clear` unmarks it, and `wait` suspends only while it is
unmarked. The dispatcher is cooperative, so the consumer runs from one suspension point to the
next without interference: each consumer step below is such a stretch. Two ghost fields record
the messages delivered and the messages popped, in order.

Results:
* `Invariant.reachable`: in every state reachable by any interleaving of deliveries, `stop` and
  consumer steps, the consumer never touches an empty queue, every message popped is the one the
  preceding `front()` returned, and the messages popped so far followed by the queue are exactly
  the messages delivered.
* `Reachable.consumerStep_isSome`: no wake-up is lost; a consumer that has not been interrupted
  can always go on once a message is queued or the queue is stopped.
* `Reachable.drains_queue`: nothing queued is stranded; unless `stop()` came while the consumer
  was suspended, the consumer alone pops every queued message in order, each within two of its
  steps (`Reachable.pops_head_within_two_steps`), and after `stop()` it then throws
  (`Reachable.consumerStep_of_stopped`).
-/

namespace Ssix
namespace CryptoNote
namespace MessageQueue

/-- Where the single consumer is in its `front()`-then-`pop()` cycle. -/
inductive Consumer (α : Type) where
  /-- About to call `front()`. -/
  | callFront
  /-- Suspended in `event.wait()` inside the `wait()` of `front()`. -/
  | waitFront
  /-- `front()` returned `m`; about to call `pop()`. -/
  | callPop (m : α)
  /-- Suspended in `event.wait()` inside the `wait()` of `pop()`, after `front()` returned `m`. -/
  | waitPop (m : α)
  /-- `wait()` threw `InterruptedException`. -/
  | interrupted
  /-- `front()` or `pop()` touched an empty `std::queue`. -/
  | fault
  deriving DecidableEq, Repr

/-- The consumer is suspended in `event.wait()`. -/
def Consumer.suspended {α : Type} : Consumer α → Bool
  | .waitFront => true
  | .waitPop _ => true
  | _ => false

/-- The queue's fields, the consumer's position, and two ghost histories. -/
structure State (α : Type) where
  messageQueue : List α
  event : Bool
  stopped : Bool
  consumer : Consumer α
  /-- Messages enqueued by push closures, in delivery order. -/
  delivered : List α
  /-- Messages removed by `pop()`, in order. -/
  consumed : List α

variable {α : Type}

/-- A fresh queue: `stopped(false)`, the event unset, the consumer about to call `front()`. -/
def State.initial : State α where
  messageQueue := []
  event := false
  stopped := false
  consumer := .callFront
  delivered := []
  consumed := []

/-! ## The consumer -/

/-- What `front()` does once `wait()` has returned: `messageQueue.front()`. -/
def frontReturns (s : State α) : State α :=
  match s.messageQueue with
  | [] => { s with consumer := .fault }
  | m :: _ => { s with consumer := .callPop m }

/-- What `pop()` does once `wait()` has returned, after `front()` returned `m`:
`messageQueue.pop()`. -/
def popReturns (m : α) (s : State α) : State α :=
  match s.messageQueue with
  | [] => { s with consumer := .fault }
  | _ :: rest =>
      { s with messageQueue := rest, consumer := .callFront, consumed := s.consumed ++ [m] }

/-- Entering `wait()`: go on at once with a non-empty queue, throw when stopped, otherwise clear
the event and suspend at `suspended`. -/
def enterWait (s : State α) (suspended : Consumer α) (k : State α → State α) : State α :=
  if s.messageQueue.isEmpty then
    if s.stopped then { s with consumer := .interrupted }
    else { s with event := false, consumer := suspended }
  else k s

/-- Resuming from `event.wait()`, which needs the event set: throw when stopped, otherwise the
loop test `!event.get()` fails and `wait()` returns. -/
def resumeWait (s : State α) (k : State α → State α) : Option (State α) :=
  if s.event then some (if s.stopped then { s with consumer := .interrupted } else k s) else none

/-- The consumer's next stretch up to a suspension point or a return; `none` when it is
suspended on an unset event or has stopped for good. -/
def consumerStep (s : State α) : Option (State α) :=
  match s.consumer with
  | .callFront => some (enterWait s .waitFront frontReturns)
  | .waitFront => resumeWait s frontReturns
  | .callPop m => some (enterWait s (.waitPop m) (popReturns m))
  | .waitPop m => resumeWait s (popReturns m)
  | .interrupted => none
  | .fault => none

/-! ## Runs -/

/-- The atomic steps of the dispatcher. -/
inductive Step : State α → State α → Prop where
  /-- A pending `push` closure runs: `messageQueue.push(message); event.set();`. -/
  | deliver (s : State α) (m : α) :
      Step s
        { s with
          messageQueue := s.messageQueue ++ [m]
          event := true
          delivered := s.delivered ++ [m] }
  /-- `stop()`: `stopped = true; event.set();`. -/
  | stop (s : State α) : Step s { s with stopped := true, event := true }
  /-- The consumer runs to its next suspension point. -/
  | consume {s s' : State α} (h : consumerStep s = some s') : Step s s'

/-- The states some interleaving of steps reaches from a fresh queue. -/
def Reachable (s : State α) : Prop :=
  Relation.ReflTransGen Step State.initial s

/-- The consumer alone runs from one state to another: no delivery and no `stop()` in between. -/
def ConsumerRuns (s s' : State α) : Prop :=
  Relation.ReflTransGen (fun a b => consumerStep a = some b) s s'

/-! ## The invariant -/

/-- What holds between any two steps. -/
structure Invariant (s : State α) : Prop where
  /-- The consumer never touched an empty queue. -/
  noFault : s.consumer ≠ .fault
  /-- Nothing delivered is lost or duplicated: popped messages, then the queue. -/
  fifo : s.delivered = s.consumed ++ s.messageQueue
  /-- The message `front()` returned is still at the head when `pop()` runs. -/
  pending : ∀ m, (s.consumer = .callPop m ∨ s.consumer = .waitPop m) →
    s.messageQueue.head? = some m
  /-- A suspended consumer finds the event set exactly when a message is queued or the queue is
  stopped: no wake-up is spurious, and none is lost. -/
  wake : s.consumer.suspended = true →
    (s.event = true ↔ s.messageQueue ≠ [] ∨ s.stopped = true)
  /-- `InterruptedException` is thrown only after `stop()`. -/
  interruptedStopped : s.consumer = .interrupted → s.stopped = true

theorem Invariant.initial : Invariant (State.initial : State α) := by
  constructor <;> simp [State.initial]

theorem Invariant.interrupt {s : State α} (inv : Invariant s) (hs : s.stopped = true) :
    Invariant { s with consumer := .interrupted } :=
  ⟨by simp, inv.fifo, by simp, by simp [Consumer.suspended], fun _ => hs⟩

theorem Invariant.frontReturns {s : State α} (inv : Invariant s) (hne : s.messageQueue ≠ []) :
    Invariant (frontReturns s) := by
  obtain ⟨m, rest, hq⟩ := List.exists_cons_of_ne_nil hne
  simp only [CryptoNote.MessageQueue.frontReturns, hq]
  exact ⟨by simp, hq ▸ inv.fifo, by simp, by simp [Consumer.suspended], by simp⟩

theorem Invariant.popReturns {s : State α} {m : α} (inv : Invariant s)
    (hhead : s.messageQueue.head? = some m) : Invariant (popReturns m s) := by
  obtain ⟨rest, hq⟩ := List.head?_eq_some_iff.mp hhead
  simp only [CryptoNote.MessageQueue.popReturns, hq]
  exact ⟨by simp, by simp [inv.fifo, hq], by simp, by simp [Consumer.suspended], by simp⟩

/-- Entering `wait()` keeps the invariant when suspending on an empty, running queue and going on
with a non-empty one both keep it. -/
theorem Invariant.enterWait {s : State α} {suspended : Consumer α} {k : State α → State α}
    (inv : Invariant s)
    (hsuspend : s.messageQueue = [] → s.stopped = false →
      Invariant { s with event := false, consumer := suspended })
    (hk : s.messageQueue ≠ [] → Invariant (k s)) : Invariant (enterWait s suspended k) := by
  unfold CryptoNote.MessageQueue.enterWait
  split
  · rename_i hq
    split
    · exact inv.interrupt ‹_›
    · rename_i hs
      exact hsuspend (List.isEmpty_iff.mp hq) (by simpa using hs)
  · rename_i hq
    exact hk fun h => hq (List.isEmpty_iff.mpr h)

/-- Resuming from `event.wait()` keeps the invariant when going on after a set event on a running
queue keeps it. -/
theorem Invariant.resumeWait {s s' : State α} {k : State α → State α} (inv : Invariant s)
    (hk : s.event = true → s.stopped = false → Invariant (k s)) (h : resumeWait s k = some s') :
    Invariant s' := by
  unfold CryptoNote.MessageQueue.resumeWait at h
  split at h
  · rename_i hev
    cases Option.some.inj h
    split
    · exact inv.interrupt ‹_›
    · rename_i hs
      exact hk hev (by simpa using hs)
  · cases h

theorem Invariant.consumerStep {s s' : State α} (inv : Invariant s)
    (h : consumerStep s = some s') : Invariant s' := by
  cases hc : s.consumer with
  | callFront =>
      simp only [CryptoNote.MessageQueue.consumerStep, hc, Option.some.injEq] at h
      exact h ▸ inv.enterWait (fun hq hs => ⟨by simp, inv.fifo, by simp,
        fun _ => by simp [hq, hs], by simp⟩) inv.frontReturns
  | waitFront =>
      simp only [CryptoNote.MessageQueue.consumerStep, hc] at h
      refine inv.resumeWait (fun hev hs => inv.frontReturns ?_) h
      simpa [hs] using (inv.wake (by simp [hc, Consumer.suspended])).mp hev
  | callPop m =>
      simp only [CryptoNote.MessageQueue.consumerStep, hc, Option.some.injEq] at h
      have hhead := inv.pending m (.inl hc)
      exact h ▸ inv.enterWait (fun hq => by simp [hq] at hhead) fun _ => inv.popReturns hhead
  | waitPop m =>
      simp only [CryptoNote.MessageQueue.consumerStep, hc] at h
      exact inv.resumeWait (fun _ _ => inv.popReturns (inv.pending m (.inr hc))) h
  | interrupted => simp [CryptoNote.MessageQueue.consumerStep, hc] at h
  | fault => simp [CryptoNote.MessageQueue.consumerStep, hc] at h

/-- Every step keeps the invariant. -/
theorem Invariant.step {s s' : State α} (inv : Invariant s) (h : Step s s') : Invariant s' := by
  cases h with
  | deliver m =>
      exact ⟨inv.noFault, by simp [inv.fifo], fun m' hm' => by simp [inv.pending m' hm'],
        fun _ => by simp, inv.interruptedStopped⟩
  | stop => exact ⟨inv.noFault, inv.fifo, inv.pending, fun _ => by simp, fun _ => rfl⟩
  | consume h => exact inv.consumerStep h

/-- Every reachable state satisfies the invariant. -/
theorem Invariant.of_reachable {s : State α} (h : Reachable s) : Invariant s := by
  induction h with
  | refl => exact Invariant.initial
  | tail _ hstep ih => exact ih.step hstep

/-! ## Runs of the queue -/

/-- No lost wake-up: a consumer that has not thrown can take its next step once a message is
queued or the queue is stopped. -/
theorem Reachable.consumerStep_isSome {s : State α} (h : Reachable s)
    (hint : s.consumer ≠ .interrupted) (hready : s.messageQueue ≠ [] ∨ s.stopped = true) :
    (consumerStep s).isSome = true := by
  have inv := Invariant.of_reachable h
  cases hc : s.consumer with
  | callFront => simp [CryptoNote.MessageQueue.consumerStep, hc]
  | callPop m => simp [CryptoNote.MessageQueue.consumerStep, hc]
  | waitFront =>
      have hev := (inv.wake (by simp [hc, Consumer.suspended])).mpr hready
      simp [CryptoNote.MessageQueue.consumerStep, hc, resumeWait, hev]
  | waitPop m =>
      have hev := (inv.wake (by simp [hc, Consumer.suspended])).mpr hready
      simp [CryptoNote.MessageQueue.consumerStep, hc, resumeWait, hev]
  | interrupted => exact absurd hc hint
  | fault => exact absurd hc inv.noFault

/-- The consumer suspends on a fresh, empty queue; `stop()` then wakes it. -/
theorem consumerStep_isSome_after_stop :
    Reachable (⟨[], true, true, .waitFront, [], []⟩ : State Nat) ∧
      (Consumer.waitFront : Consumer Nat) ≠ .interrupted ∧ ([] ≠ ([] : List Nat) ∨ true = true) ∧
      (consumerStep (⟨[], true, true, .waitFront, [], []⟩ : State Nat)).isSome = true :=
  have h : Reachable (⟨[], true, true, .waitFront, [], []⟩ : State Nat) :=
    .tail (.single (.consume rfl)) (.stop _)
  ⟨h, by decide, .inr rfl, Reachable.consumerStep_isSome h (by decide) (.inr rfl)⟩

/-- Unless `stop()` came during a suspension, the consumer pops the head of the queue within two of
its own steps. -/
theorem Reachable.pops_head_within_two_steps {s : State α} {m : α} {rest : List α}
    (h : Reachable s) (hint : s.consumer ≠ .interrupted) (hq : s.messageQueue = m :: rest)
    (hrun : s.stopped = false ∨ s.consumer.suspended = false) :
    consumerStep s = some (popReturns m s) ∨
      (consumerStep s).bind consumerStep = some (popReturns m s) := by
  have inv := Invariant.of_reachable h
  have hev (hsus : s.consumer.suspended = true) : s.event = true :=
    (inv.wake hsus).mpr (.inl (by simp [hq]))
  have hstop (hsus : s.consumer.suspended = true) : s.stopped = false := by
    simpa [hsus] using hrun
  cases hc : s.consumer with
  | callFront => exact .inr (by simp [consumerStep, enterWait, frontReturns, popReturns, hc, hq])
  | waitFront =>
      have hsus : s.consumer.suspended = true := by simp [hc, Consumer.suspended]
      exact .inr (by simp [consumerStep, resumeWait, enterWait, frontReturns, popReturns, hc, hq,
        hev hsus, hstop hsus])
  | callPop m' =>
      have hm : m' = m := by simpa [hq] using (inv.pending m' (.inl hc)).symm
      subst hm
      exact .inl (by simp [consumerStep, enterWait, hc, hq])
  | waitPop m' =>
      have hm : m' = m := by simpa [hq] using (inv.pending m' (.inr hc)).symm
      subst hm
      have hsus : s.consumer.suspended = true := by simp [hc, Consumer.suspended]
      exact .inl (by simp [consumerStep, resumeWait, hc, hev hsus, hstop hsus])
  | interrupted => exact absurd hc hint
  | fault => exact absurd hc inv.noFault

/-- Termination after `stop()`: in every reachable state with `stop()` called and an empty
queue, the consumer's next step throws `InterruptedException`, suspended or not. -/
theorem Reachable.consumerStep_of_stopped {s : State α} (h : Reachable s)
    (hint : s.consumer ≠ .interrupted) (hstop : s.stopped = true) (hq : s.messageQueue = []) :
    consumerStep s = some { s with consumer := .interrupted } := by
  have inv := Invariant.of_reachable h
  cases hc : s.consumer with
  | callFront => simp [consumerStep, enterWait, hc, hq, hstop]
  | waitFront =>
      have hev := (inv.wake (by simp [hc, Consumer.suspended])).mpr (.inr hstop)
      simp [consumerStep, resumeWait, hc, hev, hstop]
  | callPop m => simpa [hq] using inv.pending m (.inl hc)
  | waitPop m => simpa [hq] using inv.pending m (.inr hc)
  | interrupted => exact absurd hc hint
  | fault => exact absurd hc inv.noFault

theorem Reachable.consumerRuns {s s' : State α} (h : Reachable s) (hrun : ConsumerRuns s s') :
    Reachable s' :=
  h.trans (hrun.mono fun _ _ => Step.consume)

/-- Unless `stop()` came during a suspension, the consumer alone pops the whole queue in order, and
after `stop()` its next step throws. -/
theorem Reachable.drains_queue {s : State α} (h : Reachable s) (hint : s.consumer ≠ .interrupted)
    (hrun : s.stopped = false ∨ s.consumer.suspended = false) :
    ∃ s', ConsumerRuns s s' ∧ s'.consumed = s.consumed ++ s.messageQueue ∧
      s'.messageQueue = [] ∧
      (s.stopped = true → consumerStep s' = some { s' with consumer := .interrupted }) := by
  generalize hq : s.messageQueue = queue
  induction queue generalizing s with
  | nil => exact ⟨s, .refl, by simp, hq, fun hstop => h.consumerStep_of_stopped hint hstop hq⟩
  | cons m rest ih =>
      have hpop : popReturns m s =
          { s with messageQueue := rest, consumer := .callFront, consumed := s.consumed ++ [m] } := by
        simp [popReturns, hq]
      have hrun₁ : ConsumerRuns s (popReturns m s) := by
        rcases h.pops_head_within_two_steps hint hq hrun with h₁ | h₂
        · exact .single h₁
        · obtain ⟨s₀, h₀, h₁⟩ := Option.bind_eq_some.mp h₂
          exact .tail (.single h₀) h₁
      rw [hpop] at hrun₁
      obtain ⟨s₂, hrun₂, hconsumed₂, hq₂, hstop₂⟩ :=
        ih (h.consumerRuns hrun₁) (by simp) (.inr rfl) rfl
      exact ⟨s₂, hrun₁.trans hrun₂, by simp [hconsumed₂], hq₂, hstop₂⟩

/-- Two deliveries, then `stop()` before the consumer first runs: it still pops `7` and `8`, and
then throws. -/
theorem drains_queue_after_stop :
    Reachable (⟨[7, 8], true, true, .callFront, [7, 8], []⟩ : State Nat) ∧
      (Consumer.callFront : Consumer Nat) ≠ .interrupted ∧
      (true = false ∨ (Consumer.callFront : Consumer Nat).suspended = false) ∧
      ∃ s' : State Nat, ConsumerRuns ⟨[7, 8], true, true, .callFront, [7, 8], []⟩ s' ∧
        s'.consumed = [] ++ [7, 8] ∧ s'.messageQueue = [] ∧
        (true = true → consumerStep s' = some { s' with consumer := .interrupted }) :=
  have h : Reachable (⟨[7, 8], true, true, .callFront, [7, 8], []⟩ : State Nat) :=
    .tail (.tail (.single (.deliver _ 7)) (.deliver _ 8)) (.stop _)
  ⟨h, by decide, .inr rfl, Reachable.drains_queue h (by decide) (.inr rfl)⟩

/-- Why the drain excludes a `stop()` during suspension: the consumer waits on an empty queue,
`7` is delivered, `stop()` runs, and the consumer throws with `7` still queued. -/
example : Reachable (⟨[7], true, true, .interrupted, [7], []⟩ : State Nat) :=
  .tail (.tail (.tail (.single (.consume rfl)) (.deliver _ 7)) (.stop _)) (.consume rfl)

end MessageQueue
end CryptoNote
end Ssix
