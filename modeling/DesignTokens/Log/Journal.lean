import DesignTokens.Failure
import DesignTokens.Log.Logged

/-!
# The journal

Events are recorded together with the entries that are bound when they are reported.  A block binds
entries while it runs; leaving it unbinds their keys, whatever was bound to them before.
-/

namespace DesignTokens

/-- An event and the entries bound when it was reported. -/
structure Record where
  /-- The event. -/
  event : Event
  /-- The bound entries. -/
  context : Fields Json

namespace Record

/-- All entries of a record.  The data of the event prevail over bound entries, and the name and the
level of the event over both. -/
def entries (record : Record) : Fields Json :=
  Fields.merge (Fields.merge record.context record.event.data)
    [("event", .str record.event.name), ("level", .str record.event.level.name)]

end Record

/-- The bound entries and what has been recorded. -/
structure Journal where
  /-- The bound entries. -/
  context : Fields Json
  /-- The records, oldest first. -/
  records : List Record

namespace Journal

/-- Nothing bound and nothing recorded. -/
def empty : Journal := ⟨[], []⟩

instance : Inhabited Journal := ⟨empty⟩

/-- Record an event. -/
def record (journal : Journal) (event : Event) : Journal :=
  { journal with records := journal.records ++ [⟨event, journal.context⟩] }

/-- Record some events. -/
def recordAll (journal : Journal) (events : List Event) : Journal :=
  events.foldl record journal

/-- Bind entries. -/
def bindAll (journal : Journal) (entries : Fields Json) : Journal :=
  { journal with context := Fields.merge journal.context entries }

/-- Unbind keys. -/
def unbindAll (journal : Journal) (keys : List String) : Journal :=
  { journal with context := Fields.without journal.context keys }

end Journal

/-- Work that keeps a journal and may end in a fault. -/
abbrev Journaled := ExceptT Fault (StateM Journal)

namespace Journaled

variable {α : Type}

/-- Record an event. -/
def report (event : Event) : Journaled Unit := fun journal => (.ok (), journal.record event)

/-- Record the events of a value. -/
def ofLogged (logged : Logged α) : Journaled α :=
  fun journal => (.ok logged.value, journal.recordAll logged.events)

/-- Run some work with entries bound, and unbind them however it ends. -/
def within (entries : Fields Json) (work : Journaled α) : Journaled α :=
  fun journal =>
    let (outcome, after) := work (journal.bindAll entries)
    (outcome, after.unbindAll (Fields.keys entries))

end Journaled
end DesignTokens
