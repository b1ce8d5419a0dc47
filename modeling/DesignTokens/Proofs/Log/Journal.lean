import DesignTokens.Log.Journal

/-!
# What work gives and records

Work gives a value if it ends with that value whatever is in the journal.  It records only allowed
events if it leaves the records that it finds and adds none but allowed ones.  Both properties pass
from the parts of a composition to the whole.
-/

namespace DesignTokens

namespace Journal

theorem records_recordAll (journal : Journal) (events : List Event) :
    (journal.recordAll events).records =
      journal.records ++ events.map fun event => ⟨event, journal.context⟩ := by
  induction events generalizing journal with
  | nil => simp [recordAll]
  | cons event events ih =>
      have later := ih (journal.record event)
      simp only [recordAll, List.foldl_cons] at later ⊢
      rw [later]
      simp [record]

end Journal

namespace Journaled

variable {α β : Type}

theorem bind_of_ok {work : Journaled α} {journal after : Journal} {value : α}
    (ended : work journal = (.ok value, after)) (next : α → Journaled β) :
    (work >>= next) journal = next value after := by
  change ExceptT.bindCont next (work journal).1 (work journal).2 = _
  rw [ended]
  rfl

theorem bind_of_error {work : Journaled α} {journal after : Journal} {fault : Fault}
    (ended : work journal = (.error fault, after)) (next : α → Journaled β) :
    (work >>= next) journal = (.error fault, after) := by
  change ExceptT.bindCont next (work journal).1 (work journal).2 = _
  rw [ended]
  rfl

/-! ## Values -/

/-- Work ends with a value, whatever the journal. -/
def Gives (work : Journaled α) (value : α) : Prop := ∀ journal, (work journal).1 = .ok value

theorem Gives.unique {work : Journaled α} {value other : α} (gives : Gives work value)
    (alike : Gives work other) : value = other :=
  Except.ok.inj ((gives .empty).symm.trans (alike .empty))

theorem Gives.pure (value : α) : Gives (Pure.pure value) value := fun _ => rfl

theorem Gives.report (event : Event) : Gives (report event) () := fun _ => rfl

theorem Gives.ofLogged (logged : Logged α) : Gives (ofLogged logged) logged.value := fun _ => rfl

theorem Gives.bind {work : Journaled α} {value : α} (gives : Gives work value)
    {next : α → Journaled β} {result : β} (rest : Gives (next value) result) :
    Gives (work >>= next) result := by
  intro journal
  rw [bind_of_ok (Prod.ext (gives journal) rfl)]
  exact rest _

theorem Gives.within {work : Journaled α} {value : α} (gives : Gives work value)
    (entries : Fields Json) : Gives (within entries work) value :=
  fun journal => gives (journal.bindAll entries)

/-! ## Records -/

/-- Work keeps all records and adds only allowed ones, whatever the journal. -/
def RecordsOnly (allowed : Event → Prop) (work : Journaled α) : Prop :=
  ∀ journal, ∃ added, (work journal).2.records = journal.records ++ added ∧
    ∀ record ∈ added, allowed record.event

variable {allowed : Event → Prop}

theorem RecordsOnly.mono {work : Journaled α} (records : RecordsOnly allowed work)
    {permitted : Event → Prop} (weaker : ∀ event, allowed event → permitted event) :
    RecordsOnly permitted work := by
  intro journal
  obtain ⟨added, grown, valid⟩ := records journal
  exact ⟨added, grown, fun record member => weaker _ (valid record member)⟩

theorem RecordsOnly.of_empty {work : Journaled α} (records : RecordsOnly allowed work) :
    ∀ record ∈ (work .empty).2.records, allowed record.event := by
  obtain ⟨added, grown, valid⟩ := records .empty
  rw [grown]
  exact valid

theorem RecordsOnly.pure (value : α) : RecordsOnly allowed (Pure.pure value : Journaled α) :=
  fun _ => ⟨[], (List.append_nil _).symm, by simp⟩

theorem RecordsOnly.report {event : Event} (valid : allowed event) :
    RecordsOnly allowed (report event) :=
  fun _ => ⟨_, rfl, by simpa using valid⟩

theorem RecordsOnly.ofLogged {logged : Logged α} (valid : ∀ event ∈ logged.events, allowed event) :
    RecordsOnly allowed (ofLogged logged) :=
  fun journal => ⟨_, journal.records_recordAll logged.events, by simpa using valid⟩

theorem RecordsOnly.bind {work : Journaled α} (first : RecordsOnly allowed work)
    {next : α → Journaled β} (rest : ∀ value, RecordsOnly allowed (next value)) :
    RecordsOnly allowed (work >>= next) := by
  intro journal
  obtain ⟨added, grown, valid⟩ := first journal
  cases ended : (work journal).1 with
  | error fault =>
      rw [bind_of_error (Prod.ext ended rfl)]
      exact ⟨added, grown, valid⟩
  | ok value =>
      rw [bind_of_ok (Prod.ext ended rfl)]
      obtain ⟨later, grownLater, validLater⟩ := rest value (work journal).2
      refine ⟨added ++ later, ?_, List.forall_mem_append.mpr ⟨valid, validLater⟩⟩
      rw [grownLater, grown, List.append_assoc]

theorem RecordsOnly.within {work : Journaled α} (records : RecordsOnly allowed work)
    (entries : Fields Json) : RecordsOnly allowed (within entries work) := by
  intro journal
  obtain ⟨added, grown, valid⟩ := records (journal.bindAll entries)
  exact ⟨added, grown, valid⟩

end Journaled
end DesignTokens
