import Mathlib.Order.Nat
import Ragx.EventRuns
import Ragx.HeldMessages

/-!
# Lost messages

A message is lost once it is neither unread nor held and will not be delivered again, though no
consumer has finished it and it is no dead letter. The main result says which runs lose none.
-/
namespace Ragx

namespace QueueRun

/-- Some steps of the queue deliver the message once more. -/
def CanBeDelivered (cfg : QueueConfig) (w : QueueRun) (id : ℕ) : Prop :=
  ∃ events w', run (step cfg) w events = some w' ∧ w.deliveries.count id < w'.deliveries.count id

/-- A message that no consumer has finished and that is not a dead letter is unread, in
the hands of a worker, or can be delivered again unless it was delivered three times. -/
def NotLost (cfg : QueueConfig) (w : QueueRun) : Prop :=
  ∀ id < w.stream.entries.length, id ∉ w.succeeded → id ∉ w.dlq →
    w.stream.lastDelivered ≤ id ∨ id ∈ w.hands.flatten ∨
      (w.deliveries.count id < 3 ∧ w.CanBeDelivered cfg id)

/-- No consumer run fails, no message without task id is handled, and workers crash with
empty hands only. -/
def Settles (w : QueueRun) : QueueEvent → Prop
  | .fail .. => False
  | .drop _ => False
  | .crash worker => ∀ hand ∈ w.hands[worker]?, hand = []
  | _ => True

/-- What holds between the steps of a run that settles. -/
structure Tracked (w : QueueRun) : Prop where
  once : w.stream.DeliveredOnce
  dlq_empty : w.dlq = []
  delivered : ∀ id < w.stream.lastDelivered, id ∈ w.succeeded ∨ id ∈ w.hands.flatten
  held_lt : ∀ id ∈ w.hands.flatten, id < w.stream.lastDelivered
  succeeded_lt : ∀ id ∈ w.succeeded, id < w.stream.lastDelivered
  held_not_succeeded : ∀ id ∈ w.hands.flatten, id ∉ w.succeeded
  held_nodup : w.hands.flatten.Nodup

/-! ## One step -/

/-- A message delivered once is never a dead letter. -/
theorem retryOrDlq_eq {w : QueueRun} (h : w.stream.DeliveredOnce) (id : ℕ)
    (pendingRaises dlqRaises : Bool) : w.retryOrDlq id pendingRaises dlqRaises = w := by
  have hcount : (w.stream.timesDelivered id).getD 1 = 1 := by
    cases ht : w.stream.timesDelivered id with
    | none => rfl
    | some n => exact h _ (RedisStream.timesDelivered_eq_some ht)
  unfold retryOrDlq
  rw [hcount, ite_self]
  exact if_neg (by omega)

/-- A step delivers nothing that the group has read before. -/
theorem deliveries_step {cfg : QueueConfig} {w w' : QueueRun} {e : QueueEvent}
    (hs : w.step cfg e = some w') :
    w.stream.lastDelivered ≤ w'.stream.lastDelivered ∧
      ∀ id < w.stream.lastDelivered, w'.deliveries.count id = w.deliveries.count id := by
  cases moves_of_step hs with
  | enqueue | join | succeed | drop | crash => exact ⟨le_rfl, fun _ _ => rfl⟩
  | read =>
    refine ⟨Nat.le_add_right _ _, fun id hid => ?_⟩
    have hnot : id ∉ w.stream.unread cfg.readCount := fun hm =>
      absurd (RedisStream.mem_unread.mp hm).1 (by omega)
    rw [List.count_append, List.count_eq_zero_of_not_mem hnot, Nat.add_zero]
  | fail pendingRaises dlqRaises =>
    unfold retryOrDlq
    dsimp only
    split_ifs <;> exact ⟨le_rfl, fun _ _ => rfl⟩

theorem not_canBeDelivered {cfg : QueueConfig} {w : QueueRun} {id : ℕ}
    (h : id < w.stream.lastDelivered) : ¬ w.CanBeDelivered cfg id := by
  rintro ⟨events, w', hrun, hlt⟩
  have hkeep : id < w'.stream.lastDelivered ∧ w'.deliveries.count id = w.deliveries.count id := by
    refine run_invariant (I := fun v => id < v.stream.lastDelivered ∧
      v.deliveries.count id = w.deliveries.count id) (fun v e v' hv hs => ?_) ⟨h, rfl⟩ hrun
    obtain ⟨hle, hcount⟩ := deliveries_step hs
    exact ⟨hv.1.trans_le hle, (hcount id hv.1).trans hv.2⟩
  omega

theorem notLost_of_tracked {cfg : QueueConfig} {w : QueueRun} (hw : Tracked w) :
    w.NotLost cfg := by
  intro id _ hnot _
  rcases Nat.lt_or_ge id w.stream.lastDelivered with hlt | hge
  · exact Or.inr (Or.inl ((hw.delivered id hlt).resolve_left hnot))
  · exact Or.inl hge

/-- A message that a worker lets go of without finishing it is lost. -/
theorem lost_of_let_go {cfg : QueueConfig} {w w' : QueueRun} {worker id : ℕ}
    (gone rest : List ℕ) (hw : Tracked w) (hhand : w.hands[worker]? = some (gone ++ rest))
    (hid : id ∈ gone) (hhands : w'.hands = w.hands.set worker rest)
    (hentries : w'.stream.entries = w.stream.entries)
    (hlast : w'.stream.lastDelivered = w.stream.lastDelivered)
    (hsucceeded : w'.succeeded = w.succeeded) (hdlq : w'.dlq = w.dlq) : ¬ w'.NotLost cfg := by
  have hheld : id ∈ w.hands.flatten :=
    (flatten_perm hhand).mem_iff.mpr (List.mem_append_left _ (List.mem_append_left _ hid))
  have hlt := hw.held_lt id hheld
  intro hnotLost
  rcases hnotLost id (hentries ▸ hlt.trans_le w.stream.cursor_le)
    (hsucceeded ▸ hw.held_not_succeeded id hheld) (by simp [hdlq, hw.dlq_empty]) with h | h | h
  · omega
  · rw [hhands, mem_flatten_set hhand hw.held_nodup] at h
    exact h.2 hid
  · exact not_canBeDelivered (hlast ▸ hlt) h.2

theorem tracked_enqueue {w : QueueRun} (hw : Tracked w) (taskId : String) :
    Tracked { w with stream := w.stream.xadd taskId } where
  once := hw.once
  dlq_empty := hw.dlq_empty
  delivered := hw.delivered
  held_lt := hw.held_lt
  succeeded_lt := hw.succeeded_lt
  held_not_succeeded := hw.held_not_succeeded
  held_nodup := hw.held_nodup

theorem tracked_join {w : QueueRun} (hw : Tracked w) :
    Tracked { w with hands := w.hands ++ [[]] } where
  once := hw.once
  dlq_empty := hw.dlq_empty
  delivered := by simpa using hw.delivered
  held_lt := by simpa using hw.held_lt
  succeeded_lt := hw.succeeded_lt
  held_not_succeeded := by simpa using hw.held_not_succeeded
  held_nodup := by simpa using hw.held_nodup

/-- What is held is apart from what has succeeded. -/
theorem Tracked.separate {w : QueueRun} (hw : Tracked w) : w.Separate w.succeeded :=
  ⟨hw.held_lt, hw.held_nodup, hw.succeeded_lt, hw.held_not_succeeded⟩

theorem tracked_read {w : QueueRun} (hw : Tracked w) (count : ℕ) {worker : ℕ}
    (hhand : w.hands[worker]? = some []) :
    Tracked { w with
      stream := w.stream.xreadgroup count
      hands := w.hands.set worker (w.stream.unread count)
      deliveries := w.deliveries ++ w.stream.unread count } := by
  have hread := hw.separate.read count hhand
  refine ⟨RedisStream.deliveredOnce_xreadgroup hw.once count, hw.dlq_empty, fun id hid => ?_,
    hread.held_lt, hread.settled_lt, hread.held_not_settled, hread.held_nodup⟩
  rw [mem_flatten_refilled hhand]
  rcases Nat.lt_or_ge id w.stream.lastDelivered with hlt | hge
  · exact (hw.delivered id hlt).imp_right Or.inr
  · exact Or.inr (Or.inl (RedisStream.mem_unread.mpr ⟨hge, hid⟩))

/-- A worker that finishes what it lets go of keeps everything tracked. -/
theorem tracked_finish {w w' : QueueRun} {worker : ℕ} (gone : List ℕ) {rest : List ℕ}
    (hw : Tracked w) (hhand : w.hands[worker]? = some (gone ++ rest))
    (hhands : w'.hands = w.hands.set worker rest) (honce : w'.stream.DeliveredOnce)
    (hlast : w'.stream.lastDelivered = w.stream.lastDelivered)
    (hsucceeded : w'.succeeded = w.succeeded ++ gone) (hdlq : w'.dlq = w.dlq) : Tracked w' := by
  have hleft : w'.Separate w'.succeeded := hw.separate.letGo gone rest hhand hhands hlast
    fun id hid => List.mem_append.mp (hsucceeded ▸ hid)
  refine ⟨honce, hdlq.trans hw.dlq_empty, fun id hid => ?_, hleft.held_lt, hleft.settled_lt,
    hleft.held_not_settled, hleft.held_nodup⟩
  rw [hsucceeded, List.mem_append, hhands, mem_flatten_set hhand hw.held_nodup]
  by_cases hg : id ∈ gone
  · exact Or.inl (Or.inr hg)
  · exact (hw.delivered id (hlast ▸ hid)).imp Or.inl fun hheld => ⟨hheld, hg⟩

/-- One step loses no message exactly if it settles. -/
theorem notLost_step {cfg : QueueConfig} {w w' : QueueRun} {e : QueueEvent} (hw : Tracked w)
    (hs : w.step cfg e = some w') :
    (w'.NotLost cfg ↔ w.Settles e) ∧ (w.Settles e → Tracked w') := by
  have hsettled (hw' : Tracked w') (hsettles : w.Settles e) :
      (w'.NotLost cfg ↔ w.Settles e) ∧ (w.Settles e → Tracked w') :=
    ⟨iff_of_true (notLost_of_tracked hw') hsettles, fun _ => hw'⟩
  have hlost (hnot : ¬ w'.NotLost cfg) (hsettles : ¬ w.Settles e) :
      (w'.NotLost cfg ↔ w.Settles e) ∧ (w.Settles e → Tracked w') :=
    ⟨iff_of_false hnot hsettles, fun h => absurd h hsettles⟩
  cases moves_of_step hs with
  | enqueue taskId => exact hsettled (tracked_enqueue hw taskId) trivial
  | join => exact hsettled (tracked_join hw) trivial
  | read hhand => exact hsettled (tracked_read hw cfg.readCount hhand) trivial
  | @succeed _ id rest hhand _ =>
    refine hsettled (tracked_finish [id] hw hhand rfl ?_ rfl rfl rfl) trivial
    exact RedisStream.deliveredOnce_xack hw.once id
  | @fail _ id rest pendingRaises dlqRaises hhand _ =>
    simp only [retryOrDlq_eq hw.once] at hlost ⊢
    exact hlost (lost_of_let_go [id] rest hw hhand List.mem_cons_self rfl rfl rfl rfl rfl)
      (fun h => h)
  | @drop _ id rest hhand _ =>
    exact hlost (lost_of_let_go [id] rest hw hhand List.mem_cons_self rfl rfl rfl rfl rfl)
      (fun h => h)
  | @crash _ hand hhand =>
    cases hand with
    | nil =>
      refine hsettled (tracked_finish [] hw hhand rfl hw.once rfl
        (List.append_nil _).symm rfl) fun hand hh => ?_
      rw [hhand] at hh
      cases hh
      rfl
    | cons id rest =>
      refine hlost (lost_of_let_go (id :: rest) [] hw (by simpa using hhand)
        List.mem_cons_self rfl rfl rfl rfl rfl) fun h => ?_
      exact absurd (h _ hhand) (List.cons_ne_nil id rest)

theorem tracked_start : Tracked {} where
  once := nofun
  dlq_empty := rfl
  delivered := nofun
  held_lt := nofun
  succeeded_lt := nofun
  held_not_succeeded := nofun
  held_nodup := List.nodup_nil

/-- No message is lost in any state of a run exactly if no consumer run fails, no
message without task id is handled, and no worker dies with messages in its hands. -/
theorem notLost_iff (cfg : QueueConfig) (events : List QueueEvent) :
    EveryStep (step cfg) (fun _ _ w' => w'.NotLost cfg) {} events ↔
      EveryStep (step cfg) (fun w e _ => w.Settles e) {} events :=
  everyStep_congr (fun _ _ _ => notLost_step) tracked_start

/-- One failed consumer run leaves its message pending for good. -/
theorem failedRun_not_notLost :
    ¬ EveryStep (step {}) (fun _ _ w' => w'.NotLost {}) {}
      [.enqueue "task_1", .join, .read 0, .fail 0 false false] := by
  intro h
  obtain ⟨_, _, _, hlost, _⟩ := h
  rcases hlost 0 (by decide) (by decide) (by decide) with h | h | h
  · exact absurd h (by decide)
  · exact absurd h (by decide)
  · exact not_canBeDelivered (by decide) h.2

end QueueRun

end Ragx
