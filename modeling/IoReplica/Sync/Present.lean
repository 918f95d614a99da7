import IoReplica.Sync.Outcome

/-! The effect of merging a based row against a remote item: the row each axis writes. -/
namespace IoReplica
namespace ReplicaSync

/-- The flags a based row and an item converge on. -/
def mergedFlags (base : ReplicaBase) (p : ReplicaPlacement) (item : ReplicaRemoteItem) :
    ReplicaFlags := ReplicaFlags.merge base.flags p.flags item.flags

/-- The row a converged flag axis writes: `flags` are both current and base. -/
def settledRow (p : ReplicaPlacement) (flags : ReplicaFlags) : ReplicaPlacement :=
  { p with flags := flags, status := settledStatus p, base := flagBase p flags }

/-- The row the flag axis of a based placement writes, if it writes one. -/
def flagRow (base : ReplicaBase) (p : ReplicaPlacement) (item : ReplicaRemoteItem) :
    Option ReplicaPlacement :=
  let merged := mergedFlags base p item
  if merged = item.flags then
    if merged ≠ p.flags ∨ p.flags ≠ base.flags ∨ (p.status = .dirty ∧ contentEdit p = false) then
      some (settledRow p merged)
    else none
  else if merged ≠ p.flags then some { p with flags := merged }
  else none

theorem flagRow_handle {base : ReplicaBase} {p q : ReplicaPlacement} {item : ReplicaRemoteItem}
    (hq : flagRow base p item = some q) : q.handle = p.handle := by
  simp only [flagRow] at hq
  split at hq
  · split at hq
    · cases hq
      rfl
    · cases hq
  · split at hq
    · cases hq
      rfl
    · cases hq

/-- Does the flag axis derive a push? -/
def pushesFlags (opts : ReplicaSyncOptions) (base : ReplicaBase) (p : ReplicaPlacement)
    (item : ReplicaRemoteItem) (allow : PushFlags) : Bool :=
  decide (mergedFlags base p item ≠ item.flags) && decide (allow = .derive) && opts.mayFlags

/-- A refused delete derives nothing. -/
theorem refuseDelete_silent (self : ReplicaSync) (p : ReplicaPlacement) :
    (self.refuseDelete p).2 = none := by
  cases hd : self.opts.delete <;> simp [refuseDelete, hd]

/-- The one row a merge may queue, as writes. -/
def asWrites (row : Option ReplicaPlacement) : List ReplicaWriteOp :=
  (row.map ReplicaWriteOp.upsertPlacement).toList

theorem reconcileFlags_spec (d : ReplicaSync) {p : ReplicaPlacement} {base : ReplicaBase}
    (hb : p.base = some base) (item : ReplicaRemoteItem) (allow : PushFlags) :
    (d.reconcileFlags p item allow).1.writes = d.writes ++ asWrites (flagRow base p item) ∧
      (d.reconcileFlags p item allow).1.pendingAt p.handle =
        (if pushesFlags d.opts base p item allow then
          { d.pendingAt p.handle with flags := some { p with flags := mergedFlags base p item } }
        else d.pendingAt p.handle) ∧
      (d.reconcileFlags p item allow).2 =
        (if pushesFlags d.opts base p item allow then
          some (.setFlags p.handle (mergedFlags base p item))
        else none) := by
  have hbf : p.baseFlags = some base.flags := by rw [ReplicaPlacement.baseFlags, hb]; rfl
  by_cases hpush : mergedFlags base p item = item.flags
  · have hno : pushesFlags d.opts base p item allow = false := by simp [pushesFlags, hpush]
    have hm : ReplicaFlags.merge base.flags p.flags item.flags = item.flags := hpush
    by_cases hpull : item.flags = p.flags
    · have hself : settledRow p p.flags = { p with
          status := settledStatus p
          base := flagBase p p.flags } := rfl
      by_cases hd : p.flags ≠ base.flags ∨ (p.status = .dirty ∧ contentEdit p = false)
      · simp [reconcileFlags, hbf, hno, hpull, hd, flagRow, hpush, asWrites, rebase, upsert,
          write, pendingAt, hself]
      · simp [reconcileFlags, hbf, hno, hpull, hd, flagRow, hpush, asWrites]
    · simp [reconcileFlags, hbf, hno, hm, hpull, flagRow, hpush, asWrites, pullFlags, upsert,
        write, emit, countPulled, pendingAt, settledRow]
  · have hm : ReplicaFlags.merge base.flags p.flags item.flags ≠ item.flags := hpush
    by_cases hpull : mergedFlags base p item = p.flags
    · have hp : ReplicaFlags.merge base.flags p.flags item.flags = p.flags := hpull
      have hne : p.flags ≠ item.flags := by rwa [← hpull]
      have hself : { p with flags := p.flags } = p := rfl
      cases hmay : d.opts.mayFlags <;> cases allow <;>
        simp [reconcileFlags, hbf, hp, hne, flagRow, hpull, asWrites, pushesFlags, hmay,
          stashFlags, pendingAt]
    · have hp : ReplicaFlags.merge base.flags p.flags item.flags ≠ p.flags := hpull
      cases hmay : d.opts.mayFlags <;> cases allow <;>
        simp [reconcileFlags, hbf, hm, hp, flagRow, mergedFlags, asWrites, pushesFlags, hmay,
          stashFlags, pendingAt, upsert, write, emit, countPulled]

end ReplicaSync
end IoReplica
