import PluginAudit.Metadata.Merge
import PluginAudit.Ordered
import PluginAudit.Pattern.Name
import PluginAudit.Text.Case

/-!
# The metadata store

Records by plugin name. Letter case does not count, and a name that is a pattern stands for every
plugin it matches. Exact names and patterns are kept apart, each in order of insertion, so that a
plugin's own record goes before any pattern's and an earlier pattern before a later one.
-/

namespace PluginAudit.Metadata

structure PatternEntry where
  /-- The pattern as it was first written. -/
  source : String
  /-- The pattern ready to be matched. -/
  pattern : NamePattern
  record : Record
  deriving Repr, DecidableEq, Inhabited

structure Store where
  /-- The records of exact names in lower case. -/
  exact : Ordered Record := []
  /-- The records of patterns, by their text in lower case. -/
  patterns : Ordered PatternEntry := []
  deriving Repr, DecidableEq, Inhabited

namespace Store

/-- The number of names and patterns. -/
def size (s : Store) : Nat := s.exact.length + s.patterns.length

/-- The record for a plugin: that of its exact name, or else that of the first pattern that matches
its name in lower case. -/
def lookup (s : Store) (plugin : String) : Option Record :=
  let key := Text.lowerString plugin
  match s.exact.get? key with
  | some r => some r
  | none => (s.patterns.find? fun (_, e) => e.pattern.accepts key).map (·.2.record)

/-- The record stored under a name or a pattern. -/
def get? (s : Store) (name : String) : Option Record :=
  let key := Text.lowerString name
  if isPattern key then (s.patterns.get? key).map (·.record) else s.exact.get? key

/-- Stores a record under a name or a pattern, in place of any record there. A pattern is compiled
from its text as written, since lower case would change its meaning. -/
def set (s : Store) (name : String) (record : Record) : Except Condition.Fault Store :=
  let key := Text.lowerString name
  if isPattern key then
    match s.patterns.get? key with
    | some e => .ok { s with patterns := s.patterns.put key { e with record := record } }
    | none =>
      match NamePattern.compile name with
      | .error f => .error f
      | .ok pattern => .ok { s with patterns := s.patterns.put key ⟨name, pattern, record⟩ }
  else .ok { s with exact := s.exact.put key record }

/-- Stores a record under a name or a pattern, merged into any record there. -/
def add (s : Store) (name : String) (record : Record) : Except Condition.Fault Store :=
  match s.get? name with
  | none => s.set name record
  | some old => s.set name (old.merge record)

/-- The names in lower case and the patterns as first written, with their records. -/
def entries (s : Store) : List (String × Record) :=
  s.exact ++ s.patterns.map fun (_, e) => (e.source, e.record)

/-- Adds the entries of another store one after the other. -/
def merge (s other : Store) : Except Condition.Fault Store :=
  other.entries.foldlM (fun s (name, record) => s.add name record) s

end Store

end PluginAudit.Metadata
