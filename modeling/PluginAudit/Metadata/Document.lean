import PluginAudit.Log.Event
import PluginAudit.Metadata.Entry
import PluginAudit.Metadata.Store

/-!
# From documents to stores

A document is a map with a list of plugins at its top. Its entries are stored in order; one that is
invalid, or whose pattern does not compile, is skipped and reported, and leaves no trace.
-/

namespace PluginAudit.Metadata

/-- Stores the entries that values are, the first of them having number `index`. -/
def storeEntries (source : String) (store : Store) (index : Nat) :
    List Value → Store × List Log.Event
  | [] => (store, [])
  | v :: vs =>
    match Entry.ofValue? v with
    | none =>
      let (s, es) := storeEntries source store (index + 1) vs
      (s, .invalidEntry source index :: es)
    | some e =>
      match store.add e.name e.record with
      | .ok s => storeEntries source s (index + 1) vs
      | .error f =>
        let (s, es) := storeEntries source store (index + 1) vs
        (s, .skippedEntry source e.name (.condition f) :: es)

/-- The store of a document's value, and what there is to report. -/
def Store.ofValue (source : String) (v : Value) :
    Except DocumentFault (Store × List Log.Event) :=
  match (v.field? "plugins").bind Value.list? with
  | none => .error (.noPlugins source)
  | some items =>
    let (s, es) := storeEntries source {} 0 items
    .ok (s, es ++ [.loaded source s.exact.length s.patterns.length])

end PluginAudit.Metadata
