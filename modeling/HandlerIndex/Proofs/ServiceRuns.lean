import HandlerIndex.Proofs.StoreRefinement
import HandlerIndex.Workspace.Index
import Mathlib.Data.Set.Function

/-!
Runs of index services over one store. A service has a root and settings of its own; what it does to
the store is told by the sources it indexes. What the tables hold is then a map from files to
sources, and indexing looks the source up in that map: if it is there, nothing is done, and
otherwise it takes the place of the old one. Left out are services that run at the same time.
-/
namespace HandlerIndex.Workspace
open Store (Tables Contents Represents)

-- The sources of a run are a part of all sources, so a digest of 64 bits can tell them apart.
/-- Sources that a fingerprint tells apart, with payloads that a machine can hold. -/
structure ToldApart (fingerprint : Source → String) (sources : Set Source) : Prop where
  injective : Set.InjOn fingerprint sources
  fits : ∀ source ∈ sources, source.payload.Fits

theorem told_apart_list {fingerprint : Source → String} {sources : List Source}
    (injective : ∀ a ∈ sources, ∀ b ∈ sources, fingerprint a = fingerprint b → a = b)
    (fits : ∀ source ∈ sources, source.payload.Fits) :
    ToldApart fingerprint {source | source ∈ sources} :=
  ⟨fun a a_member b b_member same => injective a a_member b b_member same, fits⟩

def remembered (fingerprint : Source → String) (known : String → Option Source) : Contents :=
  fun file => (known file).map fun source => ⟨fingerprint source, source.payload⟩

theorem remembered_update (fingerprint : Source → String) (known : String → Option Source)
    (file : String) (source : Source) :
    remembered fingerprint (Function.update known file (some source)) =
      Function.update (remembered fingerprint known) file
        (some ⟨fingerprint source, source.payload⟩) := by
  funext other
  by_cases same : other = file
  · simp [remembered, same]
  · simp [remembered, same]

/-- The tables hold these sources and nothing else. -/
structure Knows (fingerprint : Source → String) (sources : Set Source) (tables : Tables)
    (known : String → Option Source) : Prop where
  held : Represents tables (remembered fingerprint known)
  drawn : ∀ file source, known file = some source → source ∈ sources

theorem Knows.empty {fingerprint : Source → String} {sources : Set Source} :
    Knows fingerprint sources Tables.empty.opened fun _ => none where
  held := Store.represents_empty
  drawn := nofun

theorem Knows.recorded {fingerprint : Source → String} {sources : Set Source} {tables : Tables}
    {known : String → Option Source} (knows : Knows fingerprint sources tables known)
    (file : String) :
    tables.isRecorded file = (known file).isSome := by
  rw [Store.represents_recorded knows.held, remembered, Option.isSome_map]

/-! The last source of a file in a list of indexed ones. -/
section Log

def lastSource? (log : List (String × Source)) (file : String) : Option Source :=
  (log.reverse.find? (·.1 == file)).map (·.2)

def learn (known : String → Option Source) (log : List (String × Source)) :
    String → Option Source :=
  fun file => (lastSource? log file).or (known file)

@[simp] theorem last_source_append (first second : List (String × Source)) (file : String) :
    lastSource? (first ++ second) file = (lastSource? second file).or (lastSource? first file) := by
  simp only [lastSource?, List.reverse_append, List.find?_append]
  cases second.reverse.find? (·.1 == file) <;> rfl

@[simp] theorem learn_nil (known : String → Option Source) : learn known [] = known := rfl

@[simp] theorem learn_cons (known : String → Option Source) (file : String) (source : Source)
    (log : List (String × Source)) :
    learn known ((file, source) :: log) = learn (Function.update known file (some source)) log := by
  funext other
  have split := last_source_append [(file, source)] log other
  rw [List.singleton_append] at split
  simp only [learn, split]
  cases lastSource? log other with
  | some last => rfl
  | none =>
    by_cases same : other = file
    · simp [lastSource?, same]
    · simp [lastSource?, same, Ne.symm same]

end Log

def tablesAfter (tables : Tables) : Except Fault (Outcome × Tables) → Tables
  | .ok (_, after) => after
  | .error _ => tables

/-! One service. -/
section Service
variable (index : Index) {sources : Set Source} {tables : Tables} {known : String → Option Source}

theorem source_payload (content : String) :
    (index.source content).payload =
      (runExtraction (fun text => some (Php.parse text)) index.settings.rules
      index.settings.enabled content).payload := by
  unfold Source.payload Index.source
  rfl

def Index.read? (disk : Disk) (file : String) : Option Source :=
  match disk.readText (index.resolve file) with
  | .ok content => some (index.source content)
  | .error _ => none

def Index.readAll (disk : Disk) (files : List String) : List (String × Source) :=
  files.filterMap fun file => (index.read? disk file).map fun source => (file, source)

def Index.Draws (disk : Disk) (files : List String) (sources : Set Source) : Prop :=
  ∀ file ∈ files, ∀ source, index.read? disk file = some source → source ∈ sources

theorem draws_iff (disk : Disk) (files : List String) :
    index.Draws disk files sources ↔ ∀ entry ∈ index.readAll disk files, entry.2 ∈ sources := by
  unfold Index.Draws Index.readAll
  constructor
  · intro draws entry member
    obtain ⟨file, found, made⟩ := List.mem_filterMap.mp member
    obtain ⟨source, read, rfl⟩ := Option.map_eq_some_iff.mp made
    exact draws file found source read
  · intro drawn file found source read
    exact drawn (file, source) (List.mem_filterMap.mpr ⟨file, found, by rw [read, Option.map_some]⟩)

theorem draws_cons (disk : Disk) (file : String) (rest : List String) :
    index.Draws disk (file :: rest) sources ↔
      index.Draws disk [file] sources ∧ index.Draws disk rest sources := by
  simp [Index.Draws]

/-- Indexing a source finds it in the tables exactly if it is the one that is known of the file. -/
theorem index_source_eq (apart : ToldApart index.fingerprint sources)
    (knows : Knows index.fingerprint sources tables known) (now : Int64) (file : String)
    (source : Source) (drawn : source ∈ sources) :
    index.indexSource now tables file source =
      .ok (if known file = some source then (.unchanged source.payload, tables)
        else index.store now tables file source) := by
  have answer := Store.represents_needs_reindex knows.held file (index.fingerprint source)
  rw [Index.indexSource, Index.cached?]
  by_cases same : known file = some source
  · have current : tables.needsReindex file (index.fingerprint source) = false :=
      answer.mpr ⟨source.payload, by simp [remembered, same]⟩
    have payload := Store.represents_file_payload knows.held file
    simp only [remembered, same, Option.map_some] at payload
    simp [current, payload, same]
  · have outdated : tables.needsReindex file (index.fingerprint source) = true := by
      rw [← Bool.not_eq_false]
      intro current
      obtain ⟨payload, found⟩ := answer.mp current
      obtain ⟨old, held, equal⟩ := Option.map_eq_some_iff.mp found
      have prints : index.fingerprint old = index.fingerprint source := congrArg (·.hash) equal
      exact same
        (held.trans (congrArg some (apart.injective (knows.drawn file old held) drawn prints)))
    simp [outdated, same]

theorem index_source_after (apart : ToldApart index.fingerprint sources)
    (knows : Knows index.fingerprint sources tables known) (now : Int64) (file : String)
    (source : Source) (drawn : source ∈ sources) :
    Knows index.fingerprint sources (tablesAfter tables (index.indexSource now tables file source))
      (learn known [(file, source)]) := by
  rw [index_source_eq index apart knows now file source drawn, learn_cons, learn_nil]
  constructor
  · by_cases same : known file = some source
    · rw [if_pos same, ← same, Function.update_eq_self]
      exact knows.held
    · rw [if_neg same, remembered_update]
      exact Store.represents_put knows.held now file _ _ (apart.fits source drawn)
  · intro other found held
    rw [Function.update_apply] at held
    split at held
    · cases held
      exact drawn
    · exact knows.drawn other found held

theorem index_read_eq (disk : Disk) (now : Int64) (file : String) (source : Source)
    (read : index.read? disk file = some source) :
    index.indexRead disk now tables file = index.indexSource now tables file source := by
  unfold Index.read? at read
  unfold Index.indexRead
  cases found : disk.readText (index.resolve file) with
  | ok content =>
    rw [found] at read
    rw [← Option.some.inj read]
  | error fault =>
    rw [found] at read
    cases read

theorem index_read_error (disk : Disk) (now : Int64) (file : String)
    (unread : index.read? disk file = none) :
    ∃ fault, index.indexRead disk now tables file = .error fault := by
  unfold Index.read? at unread
  unfold Index.indexRead
  cases found : disk.readText (index.resolve file) with
  | ok content =>
    rw [found] at unread
    cases unread
  | error fault => exact ⟨.unreadable fault, rfl⟩

theorem index_next_unread (disk : Disk) (now : Int64) (stats : Stats) (file : String)
    (unread : index.read? disk file = none) :
    index.indexNext disk now (stats, tables) file =
      ({ stats with failed := stats.failed + 1 }, tables) := by
  have failed : ∃ fault, index.indexRead disk now tables file = .error fault :=
    index_read_error index disk now file unread
  obtain ⟨fault, failed⟩ := failed
  unfold Index.indexNext
  dsimp only
  rw [failed]

theorem index_next_read (apart : ToldApart index.fingerprint sources)
    (knows : Knows index.fingerprint sources tables known) (disk : Disk) (now : Int64)
    (stats : Stats) (file : String) (source : Source) (read : index.read? disk file = some source)
    (drawn : source ∈ sources) :
    index.indexNext disk now (stats, tables) file =
      if known file = some source then
        ({ stats with
          unchanged := stats.unchanged + 1
          subscriptions := stats.subscriptions + source.payload.subscriptionCount }, tables)
      else
        ({ stats with
          indexed := stats.indexed + 1
          subscriptions := stats.subscriptions + source.payload.subscriptionCount },
          (index.store now tables file source).2) := by
  have answer := index_source_eq index apart knows now file source drawn
  rw [← index_read_eq index disk now file source read] at answer
  unfold Index.indexNext
  dsimp only
  rw [answer]
  by_cases same : known file = some source
  · rw [if_pos same, if_pos same]
    rfl
  · rw [if_neg same, if_neg same]
    rfl

theorem index_read_after (apart : ToldApart index.fingerprint sources)
    (knows : Knows index.fingerprint sources tables known) (disk : Disk) (now : Int64)
    (file : String) (draws : index.Draws disk [file] sources) :
    Knows index.fingerprint sources (tablesAfter tables (index.indexRead disk now tables file))
      (learn known (index.readAll disk [file])) := by
  cases read : index.read? disk file with
  | none =>
    have none : index.readAll disk [file] = [] := by simp [Index.readAll, read]
    have failed : ∃ fault, index.indexRead disk now tables file = .error fault :=
      index_read_error index disk now file read
    obtain ⟨fault, failed⟩ := failed
    rw [failed, none]
    exact knows
  | some source =>
    have one : index.readAll disk [file] = [(file, source)] := by simp [Index.readAll, read]
    rw [one, index_read_eq index disk now file source read]
    exact index_source_after index apart knows now file source
      (draws file List.mem_cons_self source read)

@[simp] theorem index_next_after (disk : Disk) (now : Int64) (stats : Stats) (file : String) :
    (index.indexNext disk now (stats, tables) file).2 =
      tablesAfter tables (index.indexRead disk now tables file) := by
  unfold Index.indexNext
  dsimp only
  cases index.indexRead disk now tables file with
  | error fault => rfl
  | ok answer =>
    obtain ⟨outcome, after⟩ := answer
    cases outcome <;> rfl

theorem read_all_cons (disk : Disk) (file : String) (rest : List String) :
    index.readAll disk (file :: rest) = index.readAll disk [file] ++ index.readAll disk rest := by
  unfold Index.readAll
  rw [← List.filterMap_append, List.singleton_append]

@[simp] theorem learn_append (first second : List (String × Source)) :
    learn known (first ++ second) = learn (learn known first) second := by
  funext file
  simp [learn, Option.or_assoc]

theorem index_files_knows (apart : ToldApart index.fingerprint sources) (disk : Disk) (now : Int64)
    (files : List String) (state : Stats × Tables)
    (knows : Knows index.fingerprint sources state.2 known)
    (draws : index.Draws disk files sources) :
    Knows index.fingerprint sources (files.foldl (index.indexNext disk now) state).2
      (learn known (index.readAll disk files)) := by
  induction files generalizing state known with
  | nil => exact knows
  | cons file rest ih =>
    obtain ⟨here, later⟩ := (draws_cons index disk file rest).mp draws
    have next := index_read_after index apart knows disk now file here
    rw [← index_next_after index disk now state.1 file] at next
    rw [read_all_cons, learn_append, List.foldl_cons]
    exact ih _ next later

theorem mem_stale_files (tables : Tables) (files : List String) (file : String) :
    file ∈ Index.staleFiles tables files ↔ tables.isRecorded file = true ∧ file ∉ files := by
  simp [Index.staleFiles]

theorem forget_stale_knows (knows : Knows index.fingerprint sources tables known)
    (files : List String) :
    Knows index.fingerprint sources ((Index.staleFiles tables files).foldl Tables.remove tables)
      (fun file => if file ∈ files then known file else none) := by
  constructor
  · have removed := Store.represents_remove_all (Index.staleFiles tables files) knows.held
    have same : remembered index.fingerprint
          (fun file => if file ∈ files then known file else none) =
        fun file => if file ∈ Index.staleFiles tables files then none
          else remembered index.fingerprint known file := by
      funext file
      have stale := mem_stale_files tables files file
      rw [knows.recorded file] at stale
      by_cases kept : file ∈ files
      · simp [remembered, stale, kept]
      · cases held : known file with
        | none => simp [remembered, held]
        | some source => simp [remembered, stale, kept, held]
    rw [same]
    exact removed
  · intro file source held
    split at held
    · exact knows.drawn file source held
    · cases held

theorem index_workspace_knows (apart : ToldApart index.fingerprint sources)
    (knows : Knows index.fingerprint sources tables known) (disk : Disk) (now : Int64)
    (draws : index.Draws disk (discover disk index.root index.settings) sources) :
    Knows index.fingerprint sources (index.indexWorkspace disk now tables).2
      (learn
        (fun file => if file ∈ discover disk index.root index.settings then known file else none)
        (index.readAll disk (discover disk index.root index.settings))) :=
  index_files_knows index apart disk now _ _ (forget_stale_knows index knows _) draws

end Service

/-! Calls of services, one after another. -/
section Calls
variable {fingerprint : Source → String} {sources : Set Source}

inductive Request where
  | indexContent (file content : String)
  | indexFile (file : String)
  | remove (file : String)
  | indexWorkspace
  | invalidate

structure Call where
  root : String
  settings : Settings
  disk : Disk
  now : Int64
  request : Request

def Call.index (fingerprint : Source → String) (call : Call) : Index :=
  ⟨call.root, call.settings, fingerprint⟩

def Call.run (fingerprint : Source → String) (tables : Tables) (call : Call) : Tables :=
  let index := call.index fingerprint
  match call.request with
  | .indexContent file content =>
    tablesAfter tables (index.indexContent call.now tables file content)
  | .indexFile file => tablesAfter tables (index.indexFile call.disk call.now tables file)
  | .remove file => tables.remove file
  | .indexWorkspace => (index.indexWorkspace call.disk call.now tables).2
  | .invalidate => tables.invalidateAll

def runCalls (fingerprint : Source → String) (calls : List Call) : Tables :=
  calls.foldl (Call.run fingerprint) Tables.empty.opened

-- A file that is not supported or cannot be read is not indexed. Everything else is, with success.
def Call.indexed (fingerprint : Source → String) (call : Call) : List (String × Source) :=
  let index := call.index fingerprint
  match call.request with
  | .indexContent file content => if isSupported file then [(file, index.source content)] else []
  | .indexFile file => if isSupported file then index.readAll call.disk [file] else []
  | .indexWorkspace => index.readAll call.disk (discover call.disk call.root call.settings)
  | .remove _ => []
  | .invalidate => []

/-- What the tables know of a file is the source that was indexed last. -/
def Traced (fingerprint : Source → String) (sources : Set Source) (log : List (String × Source))
    (tables : Tables) : Prop :=
  ∃ known, Knows fingerprint sources tables known ∧
    ∀ file source, known file = some source → lastSource? log file = some source

theorem traced_of_learn {tables : Tables} {known : String → Option Source}
    {log new : List (String × Source)} (knows : Knows fingerprint sources tables (learn known new))
    (last : ∀ file source, known file = some source → lastSource? log file = some source) :
    Traced fingerprint sources (log ++ new) tables := by
  refine ⟨_, knows, ?_⟩
  intro file source held
  rw [last_source_append]
  unfold learn at held
  cases recent : lastSource? new file with
  | some found =>
    rw [recent] at held
    exact held
  | none =>
    rw [recent] at held
    exact last file source held

theorem traced_empty : Traced fingerprint sources [] Tables.empty.opened := by
  refine ⟨fun _ => none, Knows.empty, ?_⟩
  intro file source held
  cases held

theorem forget_knows {tables : Tables} {known : String → Option Source}
    (knows : Knows fingerprint sources tables known) (file : String) :
    Knows fingerprint sources (tables.remove file) (Function.update known file none) := by
  constructor
  · have removed := Store.represents_remove knows.held file
    have same : remembered fingerprint (Function.update known file none) =
        Function.update (remembered fingerprint known) file none := by
      funext other
      by_cases here : other = file
      · simp [remembered, here]
      · simp [remembered, here]
    rw [same]
    exact removed
  · intro other source held
    rw [Function.update_apply] at held
    split at held
    · cases held
    · exact knows.drawn other source held

theorem forget_all_knows {tables : Tables} {known : String → Option Source}
    (knows : Knows fingerprint sources tables known) :
    Knows fingerprint sources tables.invalidateAll fun _ => none := by
  constructor
  · exact Store.represents_invalidate knows.held
  · intro file source held
    cases held

/-- One call keeps the tables in step with what was indexed. -/
theorem call_traced (apart : ToldApart fingerprint sources) {log : List (String × Source)}
    {tables : Tables} (traced : Traced fingerprint sources log tables) (call : Call)
    (drawn : ∀ entry ∈ call.indexed fingerprint, entry.2 ∈ sources) :
    Traced fingerprint sources (log ++ call.indexed fingerprint) (call.run fingerprint tables) := by
  obtain ⟨known, knows, last⟩ := traced
  -- Whatever is forgotten, the rest is still known from the source that was indexed last.
  unfold Call.indexed at drawn ⊢
  unfold Call.run
  cases request : call.request with
  | indexContent file content =>
    simp only [request, Index.indexContent] at drawn ⊢
    by_cases supported : isSupported file = true
    · rw [if_pos supported] at drawn ⊢
      rw [if_pos supported]
      have source : (call.index fingerprint).source content ∈ sources := drawn _ List.mem_cons_self
      have after := index_source_after (call.index fingerprint) apart knows call.now file _ source
      exact traced_of_learn after last
    · rw [if_neg supported] at drawn ⊢
      rw [if_neg supported]
      exact traced_of_learn knows last
  | indexFile file =>
    simp only [request, Index.indexFile] at drawn ⊢
    by_cases supported : isSupported file = true
    · rw [if_pos supported] at drawn ⊢
      rw [if_pos supported]
      have draws := (draws_iff _ call.disk [file]).mpr drawn
      have after :=
        index_read_after (call.index fingerprint) apart knows call.disk call.now file draws
      exact traced_of_learn after last
    · rw [if_neg supported] at drawn ⊢
      rw [if_neg supported]
      exact traced_of_learn knows last
  | remove file =>
    have forgotten := forget_knows knows file
    rw [← learn_nil (Function.update known file none)] at forgotten
    refine traced_of_learn forgotten ?_
    intro other source held
    rw [Function.update_apply] at held
    split at held
    · cases held
    · exact last other source held
  | indexWorkspace =>
    simp only [request] at drawn ⊢
    have draws := (draws_iff (call.index fingerprint) call.disk _).mpr drawn
    have after :=
      index_workspace_knows (call.index fingerprint) apart knows call.disk call.now draws
    refine traced_of_learn after ?_
    intro file source held
    split at held
    · exact last file source held
    · cases held
  | invalidate =>
    have forgotten := forget_all_knows knows
    rw [← learn_nil fun _ => none] at forgotten
    exact traced_of_learn forgotten nofun

def history (fingerprint : Source → String) (calls : List Call) : List (String × Source) :=
  calls.flatMap (Call.indexed fingerprint)

theorem calls_traced (apart : ToldApart fingerprint sources) (calls : List Call)
    {log : List (String × Source)} {tables : Tables}
    (traced : Traced fingerprint sources log tables)
    (drawn : ∀ entry ∈ history fingerprint calls, entry.2 ∈ sources) :
    Traced fingerprint sources (log ++ history fingerprint calls)
      (calls.foldl (Call.run fingerprint) tables) := by
  induction calls generalizing log tables with
  | nil =>
    rw [history, List.flatMap_nil, List.append_nil]
    exact traced
  | cons call rest ih =>
    simp only [history, List.flatMap_cons] at drawn ih ⊢
    have next :=
      call_traced apart traced call fun entry member => drawn entry (List.mem_append_left _ member)
    rw [← List.append_assoc]
    exact ih next fun entry member => drawn entry (List.mem_append_right _ member)

theorem run_calls_traced (apart : ToldApart fingerprint sources) (calls : List Call)
    (drawn : ∀ entry ∈ history fingerprint calls, entry.2 ∈ sources) :
    Traced fingerprint sources (history fingerprint calls) (runCalls fingerprint calls) :=
  calls_traced apart calls traced_empty drawn

end Calls
end HandlerIndex.Workspace
