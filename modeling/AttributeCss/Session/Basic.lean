/-
Sessions: scanning templates and keeping the stylesheet up to date.

A session owns the registry and the stylesheet last written.  Scans are
started, merge what they found in one go, and are released; a scan that fails
merges nothing and is reported.  Writing the stylesheet waits until no scan
is pending and then writes it anew only if the registry is stale.

Each of these moves is a function of its own (`enter`, `work`, `release`,
`copy`, `store`), so that runs in which they interleave are lists of moves.
-/
import AttributeCss.Diagnostic
import AttributeCss.Markup.Reader
import AttributeCss.Markup.Region
import AttributeCss.Occurrence
import AttributeCss.Registry
import AttributeCss.Rule.Builtin
import AttributeCss.Session.Handle
import AttributeCss.Stylesheet

namespace AttributeCss

open Markup

/-- What a reader of markup makes of a text. -/
inductive MarkupResult where
  | tree (nodes : List Node)
  | fault (e : Markup.Error)
  | crash

/-- The library's own reader of markup. -/
def MarkupResult.ofText (source : Text) : MarkupResult :=
  match Markup.read source with
  | .ok nodes => .tree nodes
  | .error e => .fault e

/-- Whether diagnostics are kept for the host build. -/
inductive Reporter where
  | recording
  /-- They only go to the log. -/
  | logging
deriving DecidableEq, Repr

/-- What the host build provides. -/
structure Host where
  rules : RuleTable := Rule.builtin
  readMarkup : Text → MarkupResult := MarkupResult.ofText
  /-- Reads modules, if there are any: the source of a name, or why not. -/
  modules : Option (Text → Except Text Text) := none
  reporter : Reporter := .logging

/-- What a session works with from its start to its end. -/
structure Setup where
  options : Options
  vocabulary : Vocabulary
  /-- The options were accepted, and this is their vocabulary. -/
  accepted : options.vocabulary = .ok vocabulary
  host : Host

/-- A session. -/
structure Session where
  setup : Setup
  registry : Registry
  /-- The stylesheet last written. -/
  css : Text
  /-- Scans started and not yet released. -/
  pending : Nat
  reported : List Diagnostic

namespace Session

def start (setup : Setup) : Session := ⟨setup, .empty setup.vocabulary, [], 0, []⟩

/-! ## Reporting -/

/-- Tells the host build of a failure, with the module it happened in. -/
def report (s : Session) (origin : Option Text) (d : Diagnostic) : Session :=
  match s.setup.host.reporter with
  | .logging => s
  | .recording =>
      { s with reported := s.reported ++ [match origin with
          | some name => d.withOrigin name
          | none => d] }

def missingRegionWarning : Diagnostic :=
  (Diagnostic.warning "No <template> region found").withHint
    "Utility attributes are only collected inside <template>...</template>"

def malformedError (e : Markup.Error) : Diagnostic :=
  .error ("Failed to parse template: " ++ e.message)

def unreadableError (cause : Text) : Diagnostic :=
  .error ("Failed to read template source: " ++ cause)

def noModulesError : Diagnostic := .error "Cannot read modules without a template source"

/-! ## Scanning -/

/-- Adds the entries of one occurrence to the registry and counts the new ones. -/
def mergeOne (state : Nat × Registry) (o : Occurrence) : Nat × Registry :=
  let (added, r) := state.2.collect o.name o.value o.facets
  (state.1 + added, r)

def merge (s : Session) (found : List Occurrence) : ScanReport × Session :=
  let (added, registry) := found.foldl mergeOne (0, s.registry)
  (⟨found.length, added⟩, { s with registry })

/-- Scans a source text, which is that of a module if an origin is given. -/
def scanText (s : Session) (origin : Option Text) (text : Text) : ScanResult × Session :=
  match region? text with
  | none =>
      if s.setup.options.requireTemplate then
        (.error .missingRegion, s.report origin missingRegionWarning)
      else (.ok {}, s)
  | some region =>
      match s.setup.host.readMarkup region with
      | .crash => (.error (.aborted "the scan crashed"), s)
      | .fault e => (.error (.malformed e), s.report origin (malformedError e))
      | .tree nodes =>
          let (report, s) := s.merge (Occurrence.ofNodes s.setup.vocabulary nodes)
          (.ok report, s)

def scanModule (s : Session) (name : Text) : ScanResult × Session :=
  match s.setup.host.modules with
  | none => (.error .noModules, s.report (some name) noModulesError)
  | some readModule =>
      match readModule name with
      | .error cause => (.error (.unreadable name cause), s.report (some name) (unreadableError cause))
      | .ok text => s.scanText (some name) text

def enter (s : Session) : Session := { s with pending := s.pending + 1 }

def work (s : Session) : ScanTask → ScanResult × Session
  | .source text => s.scanText none text
  | .named name => s.scanModule name

/-- A started scan has ended, well or not. -/
def release (s : Session) : Session := { s with pending := s.pending - 1 }

/-- A started scan does its work and ends. -/
def finish (s : Session) (task : ScanTask) : ScanResult × Session :=
  let (result, s) := s.work task
  (result, s.release)

def scan (s : Session) (task : ScanTask) : ScanResult × Session := s.enter.finish task

/-- Started scans do their work and end, in order. -/
def finishAll (s : Session) : List ScanTask → List ScanResult × Session
  | [] => ([], s)
  | task :: rest =>
      let (result, s) := s.finish task
      let (results, s) := s.finishAll rest
      (result :: results, s)

/-! ## The stylesheet -/

/-- The stylesheet of entries under the session's rules. -/
def stylesheetOf (s : Session) (entries : List Entry) : Text :=
  stylesheet s.setup.vocabulary.marker s.setup.host.rules entries

/-- Copies the entries and counts the registry as fresh, unless it is fresh already and `force` does
not ask for the stylesheet to be written anew. -/
def copy (s : Session) (force : Bool) : Option (List Entry) × Session :=
  if s.registry.stale || force then
    (some s.registry.entries, { s with registry := s.registry.freshened })
  else (none, s)

/-- Writes the stylesheet of copied entries. -/
def store (s : Session) (entries : List Entry) : Text × Session :=
  let css := s.stylesheetOf entries
  (css, { s with css })

/-- The stylesheet, written anew if the registry is stale or `force` asks for it. -/
def render (s : Session) (force : Bool) : Text × Session :=
  match s.copy force with
  | (none, s) => (s.css, s)
  | (some entries, s) => s.store entries

/-- Starts scans, lets all of them end, and writes the stylesheet. -/
def scanAll (s : Session) (tasks : List ScanTask) (force : Bool) :
    (Text × List ScanResult) × Session :=
  let (results, s) := (tasks.foldl (fun s _ => s.enter) s).finishAll tasks
  let (css, s) := s.render force
  ((css, results), s)

/-! ## Entries between sessions -/

def load (s : Session) (snapshot : Snapshot) : Session :=
  { s with registry := s.registry.load snapshot }

/-- Restores the entries in a store and counts them; a store that cannot be used counts as
empty. -/
def loadCache (s : Session) (store : Store) : Nat × Session :=
  match store.readSnapshot with
  | .ok (some snapshot) => (snapshot.length, s.load snapshot)
  | .ok none | .error _ => (0, s)

def persistCache (s : Session) (store : Store) : Except SnapshotError Store :=
  store.writeSnapshot s.registry.snapshot

end Session

/-- A session for options, if they are accepted. -/
def Options.session (o : Options) (host : Host) : Except OptionsError Session :=
  match h : o.vocabulary with
  | .error e => .error e
  | .ok v => .ok (Session.start ⟨o, v, h, host⟩)

end AttributeCss
