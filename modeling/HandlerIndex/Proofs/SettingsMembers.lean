import HandlerIndex.Proofs.JsonReading
import HandlerIndex.Proofs.SettingsRoundTrip
import Mathlib.Data.List.Forall2

/-!
What an object says about the project settings. Only the members with the names of settings count,
each of them gives the value of its setting, and the settings without a member have their defaults.
The object is refused if one of these members comes twice or has a value of another type, or if some
name is no text. Left out is the array form, which nothing writes.
-/
namespace HandlerIndex.Settings

/-! How the values of settings are written. -/
section Written

def writeText (content : String) : Json := .text (some content)

def writeTexts (contents : List String) : Json := .array (contents.map writeText)

def writeChar (c : Char) : Json := .text (some (String.singleton c))

def writeCount (n : UInt64) : Json := .number (some n.toNat)

theorem read_bool_iff {json : Json} {value : Bool} :
    readBool json = some value ↔ json = .bool value := by
  cases json <;> simp [readBool]

theorem read_text_iff {json : Json} {value : String} :
    readText json = some value ↔ json = writeText value := by
  cases json <;> simp [readText, writeText]

theorem read_texts_iff {json : Json} {value : List String} :
    readTexts json = some value ↔ json = writeTexts value := by
  constructor
  · intro read
    cases json with
    | array items =>
      rw [readTexts] at read
      rw [writeTexts]
      congr 1
      induction items generalizing value with
      | nil =>
        cases read
        rfl
      | cons item items ih =>
        simp only [List.mapM_cons, Option.bind_eq_bind, Option.bind_eq_some_iff, Option.pure_def,
          Option.some.injEq] at read
        obtain ⟨first, here, rest, later, rfl⟩ := read
        rw [List.map_cons, read_text_iff.mp here, ← ih later]
    | _ => cases read
  · rintro rfl
    exact read_texts value

theorem read_char_iff {json : Json} {value : Char} :
    readChar json = some value ↔ json = writeChar value := by
  constructor
  · intro read
    simp only [readChar, Option.bind_eq_bind, Option.bind_eq_some_iff] at read
    obtain ⟨content, held, single⟩ := read
    have chars : content.toList = [value] := by
      cases shape : content.toList with
      | nil => rw [shape] at single; cases single
      | cons c rest =>
        cases rest with
        | nil => rw [shape] at single; cases single; rfl
        | cons d rest => rw [shape] at single; cases single
    rw [read_text_iff.mp held, writeText, writeChar, ← String.ofList_toList (s := content), chars]
    rfl
  · rintro rfl
    exact read_char value

theorem read_count_iff {json : Json} {value : UInt64} :
    readCount json = some value ↔ json = writeCount value := by
  constructor
  · intro read
    cases json with
    | number whole =>
      cases whole with
      | none => cases read
      | some n =>
        rw [readCount] at read
        by_cases small : n < UInt64.size
        · rw [if_pos small] at read
          cases read
          rw [writeCount, UInt64.toNat_ofNat_of_lt' small]
        · rw [if_neg small] at read
          cases read
    | _ => cases read
  · rintro rfl
    exact read_count value

end Written

/-! Single settings. -/
section Members
variable {α : Type} {members : List (Option String × Json)} {name : String} {write : α → Json}
  {read : Json → Option α}

def occurrences (members : List (Option String × Json)) (name : String) : Nat :=
  (members.filter (·.1 == some name)).length

/-- The value of a setting: that of the member with its name, or the default if there is no such
member. -/
def Chosen (members : List (Option String × Json)) (name : String) (write : α → Json)
    (standard value : α) : Prop :=
  (some name, write value) ∈ members ∨ occurrences members name = 0 ∧ value = standard

theorem mem_named_iff (json : Json) :
    (some name, json) ∈ members ↔ (some name, json) ∈ members.filter (·.1 == some name) := by
  simp

/-- A setting has a value exactly if its name occurs at most once, and then the value is chosen by
the members. -/
theorem read_member_iff (members : List (Option String × Json)) (name : String)
    (reads : ∀ {json value}, read json = some value ↔ json = write value) (standard value : α) :
    (∃ given, memberValue members name = some given ∧ readOr standard read given = some value) ↔
      occurrences members name ≤ 1 ∧ Chosen members name write standard value := by
  unfold memberValue occurrences Chosen occurrences
  rw [mem_named_iff]
  have named : ∀ member ∈ members.filter (·.1 == some name), member = (some name, member.2) := by
    rintro ⟨other, json⟩ found
    rw [List.mem_filter, beq_iff_eq] at found
    rw [← found.2]
  cases found : members.filter (·.1 == some name) with
  | nil => simp [readOr, eq_comm]
  | cons member more =>
    cases more with
    | nil =>
      rw [found] at named
      have own := named member List.mem_cons_self
      rw [own]
      simp [readOr, reads, eq_comm]
    | cons other more => simp

def Written (write : α → Json) (json : Json) : Prop := ∃ value, json = write value

theorem chosen_of_written (typed : ∀ json, (some name, json) ∈ members → Written write json)
    (standard : α) :
    ∃ value, Chosen members name write standard value := by
  cases found : members.filter (·.1 == some name) with
  | nil => exact ⟨standard, .inr ⟨by rw [occurrences, found]; rfl, rfl⟩⟩
  | cons member more =>
    obtain ⟨other, json⟩ := member
    have here :=
      List.mem_filter.mp (found ▸ List.mem_cons_self :
        (other, json) ∈ members.filter (·.1 == some name))
    rw [beq_iff_eq] at here
    obtain ⟨among, rfl⟩ := here
    obtain ⟨value, rfl⟩ := typed json among
    exact ⟨value, .inl among⟩

theorem written_of_chosen {standard value : α} (once : occurrences members name ≤ 1)
    (chosen : Chosen members name write standard value) {json : Json}
    (member : (some name, json) ∈ members) :
    Written write json := by
  rw [mem_named_iff] at member
  rcases chosen with given | ⟨absent, -⟩
  · obtain ⟨only, alone⟩ := List.length_eq_one_iff.mp
      (Nat.le_antisymm once (List.length_pos_of_mem member))
    rw [mem_named_iff, alone, List.mem_singleton] at given
    rw [alone, List.mem_singleton, ← given] at member
    exact ⟨value, (Prod.mk.inj member).2⟩
  · rw [List.length_eq_zero_iff.mp absent] at member
    cases member

end Members

/-! All settings together. -/
section All
variable {members : List (Option String × Json)} {settings : Settings}

structure Follows (members : List (Option String × Json)) (settings : Settings) : Prop where
  enabled : Chosen members "enabled" Json.bool standard.enabled settings.enabled
  methodName : Chosen members "method_name" writeText standard.methodName settings.methodName
  keyMarkers : Chosen members "key_markers" writeTexts standard.keyMarkers settings.keyMarkers
  keySeparator : Chosen members "key_separator" writeChar standard.keySeparator
    settings.keySeparator
  respectIgnoreFiles : Chosen members "respect_gitignore" Json.bool standard.respectIgnoreFiles
    settings.respectIgnoreFiles
  ignoredDirectories : Chosen members "ignored_dirs" writeTexts standard.ignoredDirectories
    settings.ignoredDirectories
  workers : Chosen members "workers" writeCount standard.workers settings.workers
  watchPause : Chosen members "watch_debounce_ms" writeCount standard.watchPause settings.watchPause

theorem of_values_iff {a b c d e f g h : Option Json} :
    ofValues [a, b, c, d, e, f, g, h] = some settings ↔
    readOr standard.enabled readBool a = some settings.enabled ∧
    readOr standard.methodName readText b = some settings.methodName ∧
    readOr standard.keyMarkers readTexts c = some settings.keyMarkers ∧
    readOr standard.keySeparator readChar d = some settings.keySeparator ∧
    readOr standard.respectIgnoreFiles readBool e = some settings.respectIgnoreFiles ∧
    readOr standard.ignoredDirectories readTexts f = some settings.ignoredDirectories ∧
    readOr standard.workers readCount g = some settings.workers ∧
    readOr standard.watchPause readCount h = some settings.watchPause := by
  simp only [ofValues, Option.bind_eq_bind, Option.bind_eq_some_iff, Option.some.injEq]
  constructor
  · rintro ⟨_, enabled, _, method, _, markers, _, separator, _, respect, _, ignored, _, workers, _,
      pause, rfl⟩
    exact ⟨enabled, method, markers, separator, respect, ignored, workers, pause⟩
  · rintro ⟨enabled, method, markers, separator, respect, ignored, workers, pause⟩
    exact ⟨_, enabled, _, method, _, markers, _, separator, _, respect, _, ignored, _, workers, _,
      pause, rfl⟩

theorem map_m_iff {α β : Type} {action : α → Option β} {inputs : List α} {results : List β} :
    inputs.mapM action = some results ↔
      List.Forall₂ (fun input result => action input = some result) inputs results := by
  induction inputs generalizing results with
  | nil => simp [eq_comm]
  | cons input inputs ih =>
    simp only [List.mapM_cons, Option.bind_eq_bind, Option.bind_eq_some_iff, Option.pure_def,
      Option.some.injEq, ih, List.forall₂_cons_left_iff]
    constructor
    · rintro ⟨first, here, rest, later, rfl⟩
      exact ⟨first, rest, here, later, rfl⟩
    · rintro ⟨first, rest, here, later, rfl⟩
      exact ⟨first, here, rest, later, rfl⟩

theorem object_values_iff : ofJson (.object members) = some settings ↔
    (∀ member ∈ members, member.1 ≠ none) ∧
      ∃ values, memberNames.mapM (memberValue members) = some values ∧
      ofValues values = some settings := by
  have all_named : (∀ member ∈ members, member.1 ≠ none) ↔ ¬members.any (·.1.isNone) = true := by
    rw [List.any_eq_true, not_exists]
    exact forall_congr' fun member => by rw [not_and, Option.isNone_iff_eq_none]
  rw [all_named]
  unfold ofJson
  by_cases unnamed : members.any (·.1.isNone) = true
  · simp [unnamed]
  · simp only [unnamed, Bool.false_eq_true, ↓reduceIte, not_false_eq_true, true_and,
      Option.bind_eq_bind, Option.bind_eq_some_iff]

theorem of_json_object_iff : ofJson (.object members) = some settings ↔
    (∀ member ∈ members, member.1 ≠ none) ∧ (∀ name ∈ memberNames, occurrences members name ≤ 1) ∧
      Follows members settings := by
  have field {α : Type} (name : String) {read : Json → Option α} {write : α → Json}
      (reads : ∀ {json value}, read json = some value ↔ json = write value) (standard value : α) :=
    read_member_iff members name reads standard value
  rw [object_values_iff]
  refine and_congr_right fun _ => ?_
  simp only [map_m_iff]
  constructor
  · rintro ⟨values, found, read⟩
    rcases found with _ | ⟨a, _ | ⟨b, _ | ⟨c, _ | ⟨d, _ | ⟨e, _ | ⟨f, _ | ⟨g, _ | ⟨h, _ | _⟩⟩⟩⟩⟩⟩⟩⟩
    obtain ⟨enabled, method, markers, separator, respect, ignored, workers, pause⟩ :=
      of_values_iff.mp read
    have enabled := (field "enabled" read_bool_iff _ _).mp ⟨_, a, enabled⟩
    have method := (field "method_name" read_text_iff _ _).mp ⟨_, b, method⟩
    have markers := (field "key_markers" read_texts_iff _ _).mp ⟨_, c, markers⟩
    have separator := (field "key_separator" read_char_iff _ _).mp ⟨_, d, separator⟩
    have respect := (field "respect_gitignore" read_bool_iff _ _).mp ⟨_, e, respect⟩
    have ignored := (field "ignored_dirs" read_texts_iff _ _).mp ⟨_, f, ignored⟩
    have workers := (field "workers" read_count_iff _ _).mp ⟨_, g, workers⟩
    have pause := (field "watch_debounce_ms" read_count_iff _ _).mp ⟨_, h, pause⟩
    refine ⟨?_, enabled.2, method.2, markers.2, separator.2, respect.2, ignored.2, workers.2,
      pause.2⟩
    simp only [memberNames, List.forall_mem_cons]
    exact ⟨enabled.1, method.1, markers.1, separator.1, respect.1, ignored.1, workers.1, pause.1,
      List.forall_mem_nil _⟩
  · rintro ⟨once, follows⟩
    simp only [memberNames, List.forall_mem_cons] at once
    obtain ⟨a, b, c, d, e, f, g, h, -⟩ := once
    obtain ⟨_, enabled, a⟩ := (field "enabled" read_bool_iff _ _).mpr ⟨a, follows.enabled⟩
    obtain ⟨_, method, b⟩ := (field "method_name" read_text_iff _ _).mpr ⟨b, follows.methodName⟩
    obtain ⟨_, markers, c⟩ := (field "key_markers" read_texts_iff _ _).mpr ⟨c, follows.keyMarkers⟩
    obtain ⟨_, separator, d⟩ :=
      (field "key_separator" read_char_iff _ _).mpr ⟨d, follows.keySeparator⟩
    obtain ⟨_, respect, e⟩ :=
      (field "respect_gitignore" read_bool_iff _ _).mpr ⟨e, follows.respectIgnoreFiles⟩
    obtain ⟨_, ignored, f⟩ :=
      (field "ignored_dirs" read_texts_iff _ _).mpr ⟨f, follows.ignoredDirectories⟩
    obtain ⟨_, workers, g⟩ := (field "workers" read_count_iff _ _).mpr ⟨g, follows.workers⟩
    obtain ⟨_, pause, h⟩ :=
      (field "watch_debounce_ms" read_count_iff _ _).mpr ⟨h, follows.watchPause⟩
    refine ⟨_, ?_, of_values_iff.mpr ⟨a, b, c, d, e, f, g, h⟩⟩
    exact .cons enabled
      (.cons method (.cons markers (.cons separator (.cons respect (.cons ignored (.cons workers
      (.cons pause .nil)))))))

def memberTypes : List (String × (Json → Prop)) :=
  [("enabled", Written Json.bool), ("method_name", Written writeText),
    ("key_markers", Written writeTexts), ("key_separator", Written writeChar),
    ("respect_gitignore", Written Json.bool), ("ignored_dirs", Written writeTexts),
    ("workers", Written writeCount), ("watch_debounce_ms", Written writeCount)]

def WellTyped (members : List (Option String × Json)) : Prop :=
  ∀ field ∈ memberTypes, ∀ json, (some field.1, json) ∈ members → field.2 json

theorem follows_of_well_typed (typed : WellTyped members) :
    ∃ settings, Follows members settings := by
  simp only [WellTyped, memberTypes, List.forall_mem_cons] at typed
  obtain ⟨a, b, c, d, e, f, g, h, -⟩ := typed
  obtain ⟨enabled, a⟩ := chosen_of_written a standard.enabled
  obtain ⟨methodName, b⟩ := chosen_of_written b standard.methodName
  obtain ⟨keyMarkers, c⟩ := chosen_of_written c standard.keyMarkers
  obtain ⟨keySeparator, d⟩ := chosen_of_written d standard.keySeparator
  obtain ⟨respectIgnoreFiles, e⟩ := chosen_of_written e standard.respectIgnoreFiles
  obtain ⟨ignoredDirectories, f⟩ := chosen_of_written f standard.ignoredDirectories
  obtain ⟨workers, g⟩ := chosen_of_written g standard.workers
  obtain ⟨watchPause, h⟩ := chosen_of_written h standard.watchPause
  exact ⟨⟨enabled, methodName, keyMarkers, keySeparator, respectIgnoreFiles, ignoredDirectories,
    workers, watchPause⟩, ⟨a, b, c, d, e, f, g, h⟩⟩

theorem well_typed_of_follows (once : ∀ name ∈ memberNames, occurrences members name ≤ 1)
    (follows : Follows members settings) : WellTyped members := by
  simp only [memberNames, List.forall_mem_cons] at once
  obtain ⟨a, b, c, d, e, f, g, h, -⟩ := once
  simp only [WellTyped, memberTypes, List.forall_mem_cons]
  exact ⟨fun _ => written_of_chosen a follows.enabled, fun _ =>
    written_of_chosen b follows.methodName, fun _ => written_of_chosen c follows.keyMarkers,
    fun _ => written_of_chosen d follows.keySeparator, fun _ =>
      written_of_chosen e follows.respectIgnoreFiles, fun _ =>
        written_of_chosen f follows.ignoredDirectories, fun _ =>
          written_of_chosen g follows.workers, fun _ => written_of_chosen h follows.watchPause,
    List.forall_mem_nil _⟩

theorem written_count_iff (whole : Option Nat) :
    Written writeCount (.number whole) ↔ ∃ n < UInt64.size, whole = some n := by
  constructor
  · rintro ⟨value, same⟩
    exact ⟨value.toNat, value.toNat_lt_size, Json.number.inj same⟩
  · rintro ⟨n, small, rfl⟩
    exact ⟨UInt64.ofNat n, by rw [writeCount, UInt64.toNat_ofNat_of_lt' small]⟩

theorem written_char_iff (text : Option String) :
    Written writeChar (.text text) ↔ ∃ content, text = some content ∧ content.length = 1 := by
  constructor
  · rintro ⟨value, same⟩
    exact ⟨String.singleton value, Json.text.inj same, by simp⟩
  · rintro ⟨content, rfl, single⟩
    rw [← String.length_toList, List.length_eq_one_iff] at single
    obtain ⟨c, chars⟩ := single
    refine ⟨c, ?_⟩
    rw [writeChar, ← String.ofList_toList (s := content), chars]
    rfl

end All

theorem parse_of_spelled {value : Json} {content : String}
    (spelled : Json.SpelledBy value content) :
    parse? content = ofJson value := by
  rw [parse?, Json.parse_spelled spelled]
  rfl

/-! Loading. -/
section Loading
variable {disk : Disk} {root content : String} (held : disk.readText (pathIn root) = .ok content)
include held

theorem load_of_text : load disk root = (parse? content).elim (.error .malformed) .ok := by
  rw [load, if_pos (has_of_read_text held), held]
  cases read : parse? content <;> simp only [Option.elim, read]

theorem load_of_settings {settings : Settings} (read : parse? content = some settings) :
    load disk root = .ok settings ∧ loadOrStandard disk root = settings := by
  have loaded : load disk root = .ok settings := by rw [load_of_text held, read]; rfl
  exact ⟨loaded, by rw [loadOrStandard, loaded]⟩

theorem load_of_none (refused : parse? content = none) :
    load disk root = .error .malformed ∧ loadOrStandard disk root = standard := by
  have loaded : load disk root = .error .malformed := by rw [load_of_text held, refused]; rfl
  exact ⟨loaded, by rw [loadOrStandard, loaded]⟩

end Loading

-- Nothing is asked of the members with other names: their values may be anything, also what no
-- setting could have.
/-- A JSON object is loaded with the values of its known members, wherever they stand and whatever
else it holds, and with the defaults for those that are missing. It is refused if one of them comes
twice or has a value of another type, or if some name is no text. -/
theorem members_decide_settings {disk : Disk} {root content : String}
    {members : List (Option String × Json)} (held : disk.readText (pathIn root) = .ok content)
    (spelled : Json.SpelledBy (.object members) content) :
    ((∀ member ∈ members, member.1 ≠ none) → (∀ name ∈ memberNames, occurrences members name ≤ 1) →
      WellTyped members →
      ∃ settings, load disk root = .ok settings ∧ loadOrStandard disk root = settings ∧
      Follows members settings) ∧
    ((∃ member ∈ members, member.1 = none) ∨ (∃ name ∈ memberNames, 2 ≤ occurrences members name) ∨
        (∃ field ∈ memberTypes, ∃ json, (some field.1, json) ∈ members ∧ ¬field.2 json) →
      load disk root = .error .malformed ∧ loadOrStandard disk root = standard) ∧
    (∀ whole, Written writeCount (.number whole) ↔ ∃ n < UInt64.size, whole = some n) ∧
    ∀ text, Written writeChar (.text text) ↔ ∃ content,
      text = some content ∧ content.length = 1 := by
  have reads := parse_of_spelled spelled
  refine ⟨?_, ?_, written_count_iff, written_char_iff⟩
  · intro named once typed
    obtain ⟨settings, follows⟩ := follows_of_well_typed typed
    have read := reads.trans (of_json_object_iff.mpr ⟨named, once, follows⟩)
    obtain ⟨loaded, used⟩ := load_of_settings held read
    exact ⟨settings, loaded, used, follows⟩
  · intro fault
    refine load_of_none held (Option.eq_none_iff_forall_ne_some.mpr fun settings read => ?_)
    obtain ⟨named, once, follows⟩ := of_json_object_iff.mp (reads.symm.trans read)
    rcases fault with ⟨member, among, unnamed⟩ | ⟨name, known, twice⟩ |
        ⟨field, known, json, among, other⟩
    · exact named member among unnamed
    · exact absurd (once name known) (Nat.not_le.mpr twice)
    · exact other (well_typed_of_follows once follows field known json among)

/-! Objects with unusual members. -/
section Unusual

def settingsDisk (content : String) : Disk :=
  ⟨.directory
    [("w", .directory [(directoryName, .directory [(fileName, .file (Text.toBytes content))])])]⟩

theorem settings_disk_read (content : String) :
    (settingsDisk content).readText (pathIn "/w") = .ok content := by
  have found : (settingsDisk content).find (pathIn "/w") = .ok (.file (Text.toBytes content)) := rfl
  simp only [Disk.readText, Disk.readBytes, found, bind, Except.bind, Text.of_bytes_to_bytes]

def oddMembers : List Json.Member :=
  [⟨[' '], some "x", ['x'], ['\t'], ⟨[], .array [.text none], "[\"\\uDFFF\" ]".toList, ['\n']⟩⟩,
   ⟨[], some "workers", "w\\u006Frkers".toList, [], ⟨[' '], .number (some 7), ['7'], []⟩⟩]

def oddText : String := "\x7b \"x\"\t:[\"\\uDFFF\" ]\n,\"w\\u006Frkers\": 7\x7d\r"

theorem odd_members_spelled :
    Json.SpelledBy (.object (oddMembers.map Json.Member.pair)) oddText := by
  have unknown : Json.SpellsText (some "x") ['x'] := .defined "x" (Json.escapes_spell ['x'])
  have known : Json.SpellsText (some "workers") "w\\u006Frkers".toList := by
    refine .defined "workers" ?_
    have units : "workers".toList.flatMap Json.codeUnits = Json.codeUnits 'w' ++
        (((0 * 16 + 0) * 16 + 6) * 16 + 15) ::
          ['r', 'k', 'e', 'r', 's'].flatMap Json.codeUnits := by
      decide +kernel
    rw [units]
    exact .plain (by decide) (by decide) (by decide)
      (.code (by decide) (by decide) (by decide) (by decide)
      (Json.escapes_spell ['r', 'k', 'e', 'r', 's']))
  have half : Json.SpellsText none ['\\', 'u', 'D', 'F', 'F', 'F'] := by
    have units : Json.SpellsUnits [((13 * 16 + 15) * 16 + 15) * 16 + 15]
        ['\\', 'u', 'D', 'F', 'F', 'F'] :=
      .code (by decide) (by decide) (by decide) (by decide) .done
    exact .undefined units (Json.flat_units_ne_of_half (.inr (by decide)) fun high =>
      absurd high (by decide))
  have list : Json.Spells (.array [.text none]) "[\"\\uDFFF\" ]".toList := by
    refine .items [⟨[], .text none, '"' :: (['\\', 'u', 'D', 'F', 'F', 'F'] ++ ['"']), [' ']⟩]
      (List.cons_ne_nil _ _) ?_ ?_
    · exact List.forall_mem_singleton.mpr ⟨by decide, by decide⟩
    · exact List.forall_mem_singleton.mpr (.text half)
  have seven : Json.Spells (.number (some 7)) ['7'] := Json.render_spells (.number (some 7)) 0
  refine ⟨⟨[], _, _, ['\r']⟩, ⟨by decide, by decide⟩, rfl,
    .members oddMembers (List.cons_ne_nil _ _) ?_ ?_, ?_⟩
  · exact List.forall_mem_cons.mpr ⟨⟨by decide, unknown, by decide, by decide, by decide⟩,
      List.forall_mem_singleton.mpr ⟨by decide, known, by decide, by decide, by decide⟩⟩
  · exact List.forall_mem_cons.mpr ⟨list, List.forall_mem_singleton.mpr seven⟩
  · decide +kernel

theorem odd_members_loaded :
    (∃ settings, load (settingsDisk oddText) "/w" = .ok settings ∧ settings.workers = 7 ∧
      settings.watchPause = standard.watchPause) ∧
    load (settingsDisk
      (Json.object [(some "workers", writeCount 1), (some "workers", writeCount 1)]).pretty) "/w" =
      .error .malformed := by
  have typed : WellTyped (oddMembers.map Json.Member.pair) := by
    have seven : Written writeCount (.number (some 7)) := ⟨7, rfl⟩
    simpa [WellTyped, memberTypes, oddMembers, Json.Member.pair] using seven
  constructor
  · obtain ⟨settings, loaded, -, follows⟩ :=
      (members_decide_settings (settings_disk_read _) odd_members_spelled).1
      (by decide) (by decide +kernel) typed
    refine ⟨settings, loaded, ?_, ?_⟩
    · rcases follows.workers with given | ⟨absent, -⟩
      · have count : settings.workers.toNat = 7 := by
          simpa [oddMembers, Json.Member.pair, writeCount] using given
        exact UInt64.toNat_inj.mp count
      · exact absurd absent (by decide +kernel)
    · rcases follows.watchPause with given | ⟨-, same⟩
      · simp [oddMembers, Json.Member.pair] at given
      · exact same
  · exact ((members_decide_settings (settings_disk_read _) (Json.pretty_spelled _)).2.1
      (.inr (.inl ⟨"workers", by decide, by decide +kernel⟩))).1

/-- A name with half of a surrogate pair is refused although no setting has it, and so is zero with
a sign. -/
theorem half_name_and_signed_zero_refused :
    (Json.SpelledBy (.object [(none, .number (some 1))]) "\x7b\n  \"\\ud800\": 1\n\x7d" ∧
      load (settingsDisk "\x7b\n  \"\\ud800\": 1\n\x7d") "/w" = .error .malformed) ∧
    Json.SpelledBy (.object [(some "workers", .number none)]) "\x7b\n  \"workers\": -0\n\x7d" ∧
      load (settingsDisk "\x7b\n  \"workers\": -0\n\x7d") "/w" = .error .malformed := by
  have half :
      Json.SpelledBy (.object [(none, .number (some 1))]) "\x7b\n  \"\\ud800\": 1\n\x7d" := by
    have printed :
        (Json.object [(none, .number (some 1))]).pretty = "\x7b\n  \"\\ud800\": 1\n\x7d" := by
          decide +kernel
    rw [← printed]
    exact Json.pretty_spelled _
  have zero : Json.SpelledBy (.object [(some "workers", .number none)])
      "\x7b\n  \"workers\": -0\n\x7d" := by
    have printed : (Json.object [(some "workers", .number none)]).pretty =
        "\x7b\n  \"workers\": -0\n\x7d" := by
      decide +kernel
    rw [← printed]
    exact Json.pretty_spelled _
  refine ⟨⟨half, (load_of_none (settings_disk_read _) ?_).1⟩, zero,
    (load_of_none (settings_disk_read _) ?_).1⟩
  · rw [parse_of_spelled half]
    rfl
  · rw [parse_of_spelled zero]
    decide +kernel

end Unusual

end HandlerIndex.Settings
