import Mathlib.Data.List.Flatten
import Mathlib.Order.Nat
import Ragx.RedisQueue

/-!
# What the workers of a stream hold

A message in the hands of a worker was delivered once and is not done with: no consumer run has
finished it, and it is no dead letter.
-/
namespace Ragx

namespace QueueRun

/-- The message that an event acknowledges. -/
def acked (q : QueueRun) : QueueEvent → Option ℕ
  | .succeed worker | .drop worker => (q.hands[worker]?).bind List.head?
  | .fail worker pendingRaises dlqRaises =>
    ((q.hands[worker]?).bind List.head?).filter fun id =>
      id ∈ (q.retryOrDlq id pendingRaises dlqRaises).dlq ∧ id ∉ q.dlq
  | _ => none

/-- What a worker holds is held once, and is not among the messages that are done with. -/
structure Separate (q : QueueRun) (settled : List ℕ) : Prop where
  held_lt : ∀ id ∈ q.hands.flatten, id < q.stream.lastDelivered
  held_nodup : q.hands.flatten.Nodup
  settled_lt : ∀ id ∈ settled, id < q.stream.lastDelivered
  held_not_settled : ∀ id ∈ q.hands.flatten, id ∉ settled

/-! ## Hands -/

theorem flatten_set_perm {hands : List (List ℕ)} {worker : ℕ} {hand : List ℕ}
    (h : hands[worker]? = some hand) (hand' : List ℕ) :
    (hands.set worker hand').flatten.Perm (hand' ++ (hands.eraseIdx worker).flatten) := by
  obtain ⟨hlt, rfl⟩ := List.getElem?_eq_some_iff.mp h
  exact (List.set_perm_cons_eraseIdx hlt hand').flatten

theorem flatten_perm {hands : List (List ℕ)} {worker : ℕ} {hand : List ℕ}
    (h : hands[worker]? = some hand) :
    hands.flatten.Perm (hand ++ (hands.eraseIdx worker).flatten) := by
  obtain ⟨hlt, rfl⟩ := List.getElem?_eq_some_iff.mp h
  exact (List.getElem_cons_eraseIdx_perm hlt).symm.flatten

/-- What a worker lets go of is in nobody's hands afterwards, and the rest is. -/
theorem mem_flatten_set {hands : List (List ℕ)} {worker : ℕ} {gone rest : List ℕ}
    (h : hands[worker]? = some (gone ++ rest)) (hn : hands.flatten.Nodup) {id : ℕ} :
    id ∈ (hands.set worker rest).flatten ↔ id ∈ hands.flatten ∧ id ∉ gone := by
  rw [(flatten_set_perm h rest).mem_iff, (flatten_perm h).mem_iff, List.append_assoc,
    List.mem_append (s := gone)]
  have hdisjoint := (flatten_perm h).nodup_iff.mp hn
  rw [List.append_assoc, List.nodup_append] at hdisjoint
  constructor
  · intro hm
    exact ⟨Or.inr hm, fun hg => hdisjoint.2.2 id hg id hm rfl⟩
  · rintro ⟨hg | hm, hnot⟩
    · exact absurd hg hnot
    · exact hm

theorem nodup_flatten_set {hands : List (List ℕ)} {worker : ℕ} {gone rest : List ℕ}
    (h : hands[worker]? = some (gone ++ rest)) (hn : hands.flatten.Nodup) :
    (hands.set worker rest).flatten.Nodup := by
  have hall := (flatten_perm h).nodup_iff.mp hn
  rw [List.append_assoc] at hall
  exact (flatten_set_perm h rest).nodup_iff.mpr (List.nodup_append.mp hall).2.1

theorem mem_flatten_refilled {hands : List (List ℕ)} {worker : ℕ} (h : hands[worker]? = some [])
    (new : List ℕ) (id : ℕ) :
    id ∈ (hands.set worker new).flatten ↔ id ∈ new ∨ id ∈ hands.flatten := by
  rw [(flatten_set_perm h new).mem_iff, (flatten_perm h).mem_iff, List.nil_append,
    List.mem_append]

/-! ## What is held stays apart -/

variable {cfg : QueueConfig} {q q' : QueueRun} {settled settled' : List ℕ}

/-- A worker lets go of the first messages in its hands. -/
theorem Separate.letGo {worker : ℕ} (gone rest : List ℕ) (h : q.Separate settled)
    (hhand : q.hands[worker]? = some (gone ++ rest))
    (hhands : q'.hands = q.hands.set worker rest)
    (hlast : q'.stream.lastDelivered = q.stream.lastDelivered)
    (hsettled : ∀ id ∈ settled', id ∈ settled ∨ id ∈ gone) : q'.Separate settled' := by
  have hmem (id : ℕ) : id ∈ q'.hands.flatten ↔ id ∈ q.hands.flatten ∧ id ∉ gone := by
    rw [hhands]
    exact mem_flatten_set hhand h.held_nodup
  have hgone (id : ℕ) (hid : id ∈ gone) : id ∈ q.hands.flatten :=
    (flatten_perm hhand).mem_iff.mpr (List.mem_append_left _ (List.mem_append_left _ hid))
  refine ⟨fun id hid => ?_, ?_, fun id hid => ?_, fun id hid hdone => ?_⟩
  · rw [hlast]
    exact h.held_lt id ((hmem id).mp hid).1
  · rw [hhands]
    exact nodup_flatten_set hhand h.held_nodup
  · rw [hlast]
    rcases hsettled id hid with hold | hnew
    · exact h.settled_lt id hold
    · exact h.held_lt id (hgone id hnew)
  · obtain ⟨hheld, hnot⟩ := (hmem id).mp hid
    rcases hsettled id hdone with hold | hnew
    · exact h.held_not_settled id hheld hold
    · exact hnot hnew

theorem Separate.mono (h : q.Separate settled) (hsub : ∀ id ∈ settled', id ∈ settled) :
    q.Separate settled' :=
  ⟨h.held_lt, h.held_nodup, fun id hid => h.settled_lt id (hsub id hid),
    fun id hid hdone => h.held_not_settled id hid (hsub id hdone)⟩

theorem Separate.xadd (h : q.Separate settled) (taskId : String) :
    Separate { q with stream := q.stream.xadd taskId } settled :=
  ⟨h.held_lt, h.held_nodup, h.settled_lt, h.held_not_settled⟩

theorem Separate.join (h : q.Separate settled) :
    Separate { q with hands := q.hands ++ [[]] } settled :=
  ⟨by simpa using h.held_lt, by simpa using h.held_nodup, h.settled_lt,
    by simpa using h.held_not_settled⟩

theorem Separate.read (h : q.Separate settled) (count : ℕ) {worker : ℕ}
    (hhand : q.hands[worker]? = some []) :
    Separate { q with
      stream := q.stream.xreadgroup count
      hands := q.hands.set worker (q.stream.unread count)
      deliveries := q.deliveries ++ q.stream.unread count } settled := by
  have hheld := mem_flatten_refilled hhand (q.stream.unread count)
  have hle : q.stream.lastDelivered ≤ (q.stream.xreadgroup count).lastDelivered :=
    Nat.le_add_right _ _
  refine ⟨fun id hid => ?_, ?_, fun id hid => (h.settled_lt id hid).trans_le hle,
    fun id hid hdone => ?_⟩
  · rcases (hheld id).mp hid with hnew | hold
    · exact (RedisStream.mem_unread.mp hnew).2
    · exact (h.held_lt id hold).trans_le hle
  · refine (flatten_set_perm hhand _).nodup_iff.mpr (List.nodup_append.mpr
      ⟨RedisStream.nodup_unread _ _, (flatten_perm hhand).nodup_iff.mp h.held_nodup, ?_⟩)
    rintro id hnew _ hold rfl
    have hold' : id ∈ q.hands.flatten := (flatten_perm hhand).mem_iff.mpr hold
    exact absurd (h.held_lt id hold') (RedisStream.mem_unread.mp hnew).1.not_gt
  · rcases (hheld id).mp hid with hnew | hold
    · exact absurd (h.settled_lt id hdone) (RedisStream.mem_unread.mp hnew).1.not_gt
    · exact h.held_not_settled id hold hdone

/-- A worker ends with what it holds. -/
theorem Separate.leave (h : q.Separate settled) (worker : ℕ) :
    Separate { q with hands := q.hands.eraseIdx worker } settled := by
  have hsub : (q.hands.eraseIdx worker).flatten.Sublist q.hands.flatten :=
    (List.eraseIdx_sublist _ _).flatten
  exact ⟨fun id hid => h.held_lt id (hsub.subset hid), h.held_nodup.sublist hsub, h.settled_lt,
    fun id hid => h.held_not_settled id (hsub.subset hid)⟩

/-- What a failed run leaves: the message stays pending, or is a dead letter. -/
theorem dlq_retryOrDlq (q : QueueRun) (id : ℕ) (pendingRaises dlqRaises : Bool) :
    ((q.retryOrDlq id pendingRaises dlqRaises).dlq = q.dlq ∨
      (q.retryOrDlq id pendingRaises dlqRaises).dlq = q.dlq ++ [id]) ∧
      (q.retryOrDlq id pendingRaises dlqRaises).stream.lastDelivered = q.stream.lastDelivered ∧
      (q.retryOrDlq id pendingRaises dlqRaises).stream.entries = q.stream.entries := by
  unfold retryOrDlq
  dsimp only
  generalize (if pendingRaises = true then 1 else (q.stream.timesDelivered id).getD 1) = count
  split_ifs
  · exact ⟨Or.inr rfl, rfl, rfl⟩
  · exact ⟨Or.inl rfl, rfl, rfl⟩

/-- What one event does to the stream of entries, to what is held and to the dead letters. -/
theorem separate_step {e : QueueEvent} {q' : QueueRun} (finished finished' : List ℕ)
    (h : q.Separate (finished ++ q.dlq)) (hs : q.step cfg e = some q')
    (hfinished : ∀ id ∈ finished', id ∈ finished ∨ id ∈ q.acked e) :
    q'.Separate (finished' ++ q'.dlq) := by
  have hnone (hacked : q.acked e = none) : ∀ id ∈ finished' ++ q.dlq, id ∈ finished ++ q.dlq := by
    intro id hid
    rcases List.mem_append.mp hid with hid | hid
    · have hold := (hfinished id hid).resolve_right (by rw [hacked]; exact Option.not_mem_none id)
      exact List.mem_append_left _ hold
    · exact List.mem_append_right _ hid
  have hgone {worker : ℕ} {id : ℕ} {rest : List ℕ} (hhand : q.hands[worker]? = some (id :: rest))
      (hacked : q.acked e = (q.hands[worker]?).bind List.head?) :
      ∀ id' ∈ finished' ++ q.dlq, id' ∈ finished ++ q.dlq ∨ id' ∈ [id] := by
    intro id' hid'
    rcases List.mem_append.mp hid' with hid' | hid'
    · rcases hfinished id' hid' with hold | hnew
      · exact Or.inl (List.mem_append_left _ hold)
      · rw [hacked, hhand] at hnew
        exact Or.inr (List.mem_singleton.mpr (Option.some.inj hnew).symm)
    · exact Or.inl (List.mem_append_right _ hid')
  cases moves_of_step hs with
  | enqueue taskId => exact (h.xadd taskId).mono (hnone rfl)
  | join => exact h.join.mono (hnone rfl)
  | read hhand => exact (h.read cfg.readCount hhand).mono (hnone rfl)
  | @succeed _ id rest hhand _ => exact h.letGo [id] rest hhand rfl rfl (hgone hhand rfl)
  | @drop _ id rest hhand _ => exact h.letGo [id] rest hhand rfl rfl (hgone hhand rfl)
  | @fail _ id rest pendingRaises dlqRaises hhand _ =>
    obtain ⟨hdlq, hlast, _⟩ := q.dlq_retryOrDlq id pendingRaises dlqRaises
    refine h.letGo [id] rest hhand rfl hlast fun id' hid' => ?_
    rcases List.mem_append.mp hid' with hid' | hid'
    · rcases hfinished id' hid' with hold | hnew
      · exact Or.inl (List.mem_append_left _ hold)
      · rw [acked, hhand] at hnew
        have hsame := (Option.mem_filter_iff.mp hnew).1
        exact Or.inr (List.mem_singleton.mpr (Option.some.inj hsame).symm)
    · have hid'' : id' ∈ (q.retryOrDlq id pendingRaises dlqRaises).dlq := hid'
      rcases hdlq with hdlq | hdlq
      · rw [hdlq] at hid''
        exact Or.inl (List.mem_append_right _ hid'')
      · rw [hdlq] at hid''
        exact (List.mem_append.mp hid'').imp_left (List.mem_append_right _)
  | @crash _ hand hhand =>
    exact h.letGo hand [] (by rw [hhand, List.append_nil]) rfl rfl
      fun id hid => Or.inl (hnone rfl id hid)

/-- Only new entries and new workers change their number. -/
theorem frame_step {e : QueueEvent} (henqueue : ∀ taskId, e ≠ .enqueue taskId) (hjoin : e ≠ .join)
    (hs : q.step cfg e = some q') :
    q'.stream.entries = q.stream.entries ∧ q'.hands.length = q.hands.length := by
  cases moves_of_step hs with
  | enqueue taskId => exact absurd rfl (henqueue taskId)
  | join => exact absurd rfl hjoin
  | read | succeed | drop | crash => exact ⟨rfl, List.length_set⟩
  | @fail _ id _ pendingRaises dlqRaises =>
    exact ⟨(q.dlq_retryOrDlq id pendingRaises dlqRaises).2.2, List.length_set⟩

theorem mem_entries_of_held (h : q.Separate settled) {id : ℕ} (hid : id ∈ q.hands.flatten) :
    q.taskId id ∈ q.stream.entries := by
  have hlt := (h.held_lt id hid).trans_le q.stream.cursor_le
  rw [taskId, List.getElem?_eq_getElem hlt]
  exact List.getElem_mem hlt

end QueueRun

end Ragx
