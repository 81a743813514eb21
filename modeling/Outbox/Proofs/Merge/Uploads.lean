import Outbox.Proofs.Merge.Table

/-!
# Where uploads come from

Logs and tracked files are joined with each other, and a copy becomes another operation before it is
merged. Uploads stay what they are: those that a batch sends were put into it as they are sent.

* `Pending.mem_of_visited` is the law of one attribute;
* `Merger.Uploads` is the invariant of a batch, and `Merger.Uploads.finish` its result.
-/

namespace Outbox

namespace Pending

variable {p p' : Pending} {op op' : Operation}

theorem mem_of_deletesAfter (mem : op' ∈ p.deletesAfter op) : op' ∈ p.operations ∨ op' = op := by
  unfold deletesAfter at mem
  split at mem
  · rcases List.mem_append.1 mem with first | last
    · refine .inl ?_
      show op' ∈ p.deletes ++ p.changes ++ p.configs
      rw [List.append_assoc]
      exact List.mem_append_right _ (List.mem_of_mem_take first)
    · exact .inr (List.mem_singleton.1 last)
  · exact .inl (List.mem_append_left _ (List.mem_append_left _ mem))

/-- An upload that is pending after an operation was pending before, or is that operation. -/
theorem mem_of_visited {v : Except MergeError Visit} (h : Visited p op p' v)
    (mem : op' ∈ p'.operations) (upload : op'.isUpload = true) : op' ∈ p.operations ∨ op' = op := by
  cases h with
  | copy | waits | rejected => exact .inl mem
  | changed _ _ _ combined =>
    rcases List.mem_append.1 mem with mem | config
    · rcases List.mem_append.1 mem with delete | change
      · exact .inl (List.mem_append_left _ (List.mem_append_left _ delete))
      · rcases combined.mem change with old | new | ⟨_, _, _, _, _, none_such⟩
        · exact .inl (List.mem_append_left _ (List.mem_append_right _ old))
        · exact .inr new
        · rw [upload] at none_such
          cases none_such
    · exact .inl (List.mem_append_right _ config)
  | configured =>
    rcases List.mem_append.1 mem with mem | config
    · exact .inl (List.mem_append_left _ mem)
    · exact .inr (List.mem_singleton.1 config)
  | deleted => exact mem_of_deletesAfter (by simpa [operations] using mem)

end Pending

namespace Bundle

/-- The uploads of a bundle after operations were added. -/
theorem uploads_pushAll (b : Bundle) (ops : List Operation) :
    (b.pushAll ops).uploads = b.uploads ++ ops.filter Operation.isUpload := by
  induction ops generalizing b with
  | nil => simp [pushAll]
  | cons op ops ih =>
    show ((b.push op).pushAll ops).uploads = _
    rw [ih, List.filter_cons]
    unfold push
    split
    · simp
    · split <;> rfl

end Bundle

namespace Merger

/-- The uploads that are pending are among some operations. -/
def Uploads (m : Merger) (among : Operation → Prop) : Prop :=
  ∀ entry ∈ m.table, ∀ op ∈ entry.2.operations, op.isUpload = true → among op

variable {m m' : Merger} {among : Operation → Prop}

theorem uploads_empty (among : Operation → Prop) : empty.Uploads among :=
  fun _ mem => absurd mem List.not_mem_nil

theorem Uploads.mono (h : m.Uploads among) {among' : Operation → Prop}
    (more : ∀ op, among op → among' op) : m.Uploads among' :=
  fun entry mem op mem' upload => more op (h entry mem op mem' upload)

theorem Uploads.pending (h : m.Uploads among) {path : AttributePath} {op : Operation}
    (mem : op ∈ (m.pending path).operations) (upload : op.isUpload = true) : among op := by
  unfold Merger.pending at mem
  cases found : m.table.get? path with
  | none =>
    rw [found] at mem
    exact absurd mem List.not_mem_nil
  | some p =>
    rw [found] at mem
    exact h _ (PendingTable.mem_of_get? found) op mem upload

/-- One more operation is merged. -/
theorem Uploads.process (h : m.Uploads among) (sound : m.Sound) {op : Operation}
    (new : op.isUpload = true → among op) {r : Except MergeError Bool}
    (hp : m.process op = (m', r)) : m'.Uploads among := by
  rcases hv : (m.pending op.path).visit op with ⟨after, v⟩
  have table : m'.table = m.table.set op.path after := by
    have after_process := m.table_process op
    rwa [hp, hv] at after_process
  intro entry mem op' mem' upload
  rw [table] at mem
  rcases PendingTable.mem_of_set mem with rfl | old
  · rcases Pending.mem_of_visited (Pending.visited (sound op.path) hv) mem' upload with before | rfl
    · exact h.pending before upload
    · exact new upload
  · exact h entry old op' mem' upload

/-- An operation that has to wait leaves the batch as it is. -/
theorem Uploads.waits (h : m.Uploads among) (sound : m.Sound) {op : Operation}
    (hp : m.process op = (m', .ok false)) : m'.Uploads among := by
  rcases hv : (m.pending op.path).visit op with ⟨after, v⟩
  unfold Merger.process at hp
  simp only [hv] at hp
  cases v with
  | error e => cases hp
  | ok v =>
    simp only at hp
    split at hp
    · next late =>
      subst late
      cases hp
      cases Pending.visited (sound op.path) hv with
      | waits =>
        intro entry mem op' mem' upload
        rcases PendingTable.mem_of_set mem with rfl | old
        · exact h.pending mem' upload
        · exact h entry old op' mem' upload
    · cases hp

/-- **What is uploaded was put into the batch.** -/
theorem Uploads.finish (h : m.Uploads among) (errors : List Inconsistency) {op : Operation}
    (mem : op ∈ (m.finish errors).uploads) : among op := by
  have uploads : (m.finish errors).uploads =
      (m.table.flatMap fun entry => entry.2.operations).filter Operation.isUpload :=
    Bundle.uploads_pushAll .empty _
  rw [uploads, List.mem_filter, List.mem_flatMap] at mem
  obtain ⟨⟨entry, listed, mem⟩, upload⟩ := mem
  exact h entry listed op mem upload

end Merger

end Outbox
