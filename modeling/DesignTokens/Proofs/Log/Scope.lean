import DesignTokens.Proofs.Fields
import DesignTokens.Proofs.Log.Journal

/-!
# Scopes

Work is nested if it is put together from reports and blocks, one after another or with faults
caught, and no block binds a key that is bound where it stands.  Nested work leaves the bound
entries as they were, however it ends.  Work that leaves them adds records to those before.
-/

namespace DesignTokens

namespace Fields

variable {α : Type}

/-- Unbinding undoes binding where no key was bound before. -/
theorem without_merge {context entries : Fields α}
    (fresh : ∀ key ∈ keys entries, key ∉ keys context) :
    without (merge context entries) (keys entries) = context := by
  have disjoint : ∀ key ∈ keys context, key ∉ keys entries :=
    fun key known added => fresh key added known
  rw [merge_of_disjoint disjoint, without, List.filter_append, ← without, ← without,
    without_eq_self fun entry member => disjoint _ (mem_keys_of_mem member)]
  suffices without entries (keys entries) = [] by rw [this, List.append_nil]
  rw [without, List.filter_eq_nil_iff]
  intro entry member
  simpa using mem_keys_of_mem member

end Fields

namespace Journal

theorem context_recordAll (journal : Journal) (events : List Event) :
    (journal.recordAll events).context = journal.context := by
  induction events generalizing journal with
  | nil => rfl
  | cons event events ih => exact ih (journal.record event)

theorem recordAll_eq (journal : Journal) (events : List Event) :
    journal.recordAll events =
      ⟨journal.context, journal.records ++ events.map fun event => ⟨event, journal.context⟩⟩ := by
  rw [← records_recordAll, ← context_recordAll journal events]

end Journal

namespace Journaled

variable {α β : Type}

theorem tryCatch_of_ok {work : Journaled α} {journal after : Journal} {value : α}
    (ended : work journal = (.ok value, after)) (handler : Fault → Journaled α) :
    tryCatch work handler journal = (.ok value, after) := by
  simp only [tryCatch, tryCatchThe, MonadExceptOf.tryCatch, ExceptT.tryCatch, ExceptT.mk,
    Bind.bind, StateT.bind]
  rw [ended]
  rfl

theorem tryCatch_of_error {work : Journaled α} {journal after : Journal} {fault : Fault}
    (ended : work journal = (.error fault, after)) (handler : Fault → Journaled α) :
    tryCatch work handler journal = handler fault after := by
  simp only [tryCatch, tryCatchThe, MonadExceptOf.tryCatch, ExceptT.tryCatch, ExceptT.mk,
    Bind.bind, StateT.bind]
  rw [ended]

/-! ## Nested work -/

/-- Work in which no block binds a key that is bound where it stands, if just the keys `bound` are
bound around it. -/
inductive Nested : (bound : List String) → {α : Type} → Journaled α → Prop
  /-- A value. -/
  | pure {bound : List String} {α : Type} (value : α) : Nested bound (Pure.pure value)
  /-- A report. -/
  | report {bound : List String} (event : Event) : Nested bound (report event)
  /-- The reports of a walk. -/
  | ofLogged {bound : List String} {α : Type} (logged : Logged α) : Nested bound (ofLogged logged)
  /-- A fault. -/
  | fail {bound : List String} {α : Type} (fault : Fault) : Nested bound (throw fault : Journaled α)
  /-- Work, and what its value leads to. -/
  | bind {bound : List String} {α β : Type} {work : Journaled α} {next : α → Journaled β}
      (first : Nested bound work) (rest : ∀ value, Nested bound (next value)) :
      Nested bound (work >>= next)
  /-- Work, and what its fault leads to. -/
  | recover {bound : List String} {α : Type} {work : Journaled α} {handler : Fault → Journaled α}
      (first : Nested bound work) (rest : ∀ fault, Nested bound (handler fault)) :
      Nested bound (tryCatch work handler)
  /-- A block. -/
  | within {bound : List String} {α : Type} {entries : Fields Json} {work : Journaled α}
      (fresh : ∀ key ∈ Fields.keys entries, key ∉ bound)
      (body : Nested (bound ++ Fields.keys entries) work) : Nested bound (within entries work)

/-- A block restores the bound entries if the work in it does and no key of the block was bound. -/
theorem context_within {work : Journaled α} {journal : Journal} {entries : Fields Json}
    (fresh : ∀ key ∈ Fields.keys entries, key ∉ Fields.keys journal.context)
    (restored : (work (journal.bindAll entries)).2.context = (journal.bindAll entries).context) :
    (within entries work journal).2.context = journal.context := by
  change Fields.without (work (journal.bindAll entries)).2.context (Fields.keys entries) = _
  rw [restored]
  exact Fields.without_merge fresh

/-- Nested work leaves the bound entries as they were, whether it ends with a value or a fault. -/
theorem Nested.context_eq {bound : List String} {work : Journaled α} (nested : Nested bound work)
    {journal : Journal} (bounded : ∀ key ∈ Fields.keys journal.context, key ∈ bound) :
    (work journal).2.context = journal.context := by
  induction nested generalizing journal with
  | pure value => rfl
  | report event => rfl
  | ofLogged logged => exact journal.context_recordAll logged.events
  | fail fault => rfl
  | bind _ _ first rest =>
      rename_i work next _ _
      have kept := first bounded
      rcases ended : work journal with ⟨fault | value, after⟩
      · rw [bind_of_error ended]
        simpa [ended] using kept
      · rw [ended] at kept
        rw [bind_of_ok ended, rest _ (kept ▸ bounded)]
        exact kept
  | recover _ _ first rest =>
      rename_i work handler _ _
      have kept := first bounded
      rcases ended : work journal with ⟨fault | value, after⟩
      · rw [ended] at kept
        rw [tryCatch_of_error ended, rest _ (kept ▸ bounded)]
        exact kept
      · rw [tryCatch_of_ok ended]
        simpa [ended] using kept
  | within fresh _ body =>
      -- In the block its own keys are bound too, and they may not be bound again.
      refine context_within (fun key added known => fresh key added (bounded key known)) (body ?_)
      intro key known
      rw [Journal.bindAll, Fields.mem_keys_merge] at known
      exact List.mem_append.mpr (known.imp_left (bounded key))

/-! ## Added records -/

/-- With some entries bound, work ends with an outcome, leaves the entries as they are, and adds
records to those before. -/
def Adds (work : Journaled α) (context : Fields Json) (outcome : Except Fault α)
    (added : List Record) : Prop :=
  ∀ records, work ⟨context, records⟩ = (outcome, ⟨context, records ++ added⟩)

namespace Adds

variable {work : Journaled α} {context : Fields Json} {added : List Record}

theorem pure (value : α) (context : Fields Json) :
    Adds (Pure.pure value) context (.ok value) [] :=
  fun records => by rw [List.append_nil]; rfl

theorem report (event : Event) (context : Fields Json) :
    Adds (report event) context (.ok ()) [⟨event, context⟩] :=
  fun _ => rfl

theorem fail (fault : Fault) (context : Fields Json) :
    Adds (throw fault : Journaled α) context (.error fault) [] :=
  fun records => by rw [List.append_nil]; rfl

theorem ofLogged (logged : Logged α) (context : Fields Json) :
    Adds (ofLogged logged) context (.ok logged.value)
      (logged.events.map fun event => ⟨event, context⟩) :=
  fun records => congrArg (Prod.mk _) (Journal.recordAll_eq ⟨context, records⟩ logged.events)

theorem bind {value : α} (first : Adds work context (.ok value) added) {next : α → Journaled β}
    {outcome : Except Fault β} {others : List Record}
    (rest : Adds (next value) context outcome others) :
    Adds (work >>= next) context outcome (added ++ others) := by
  intro records
  rw [bind_of_ok (first records), rest, List.append_assoc]

theorem bind_of_error {fault : Fault} (first : Adds work context (.error fault) added)
    (next : α → Journaled β) : Adds (work >>= next) context (.error fault) added :=
  fun records => Journaled.bind_of_error (first records) next

theorem within {entries : Fields Json}
    (fresh : ∀ key ∈ Fields.keys entries, key ∉ Fields.keys context) {outcome : Except Fault α}
    (body : Adds work (Fields.merge context entries) outcome added) :
    Adds (within entries work) context outcome added := by
  intro records
  have ended := body records
  have restored := Fields.without_merge fresh
  rw [Journaled.within, Journal.bindAll, ended]
  dsimp only
  rw [Journal.unbindAll, restored]

end Adds
end Journaled
end DesignTokens
