import HandlerIndex.Proofs.DiskWrites
import HandlerIndex.Proofs.JsonRoundTrip
import HandlerIndex.Proofs.TextBytes

/-!
Project settings that were saved are loaded as they were. Whether they can be saved is a matter of
the disk alone: of whether their directory can be made, and of what is there in the place of their
file. Left out are disks that change between saving and loading.
-/
namespace HandlerIndex.Settings

/-! The printed settings. -/
section Printed

theorem member_values (before : List (Option String × Json)) (names : List String)
    (values : List Json) (others : ∀ member ∈ before, ∀ name ∈ names, member.1 ≠ some name)
    (distinct : names.Nodup) (paired : names.length = values.length) :
    names.mapM (memberValue (before ++ (names.map some).zip values)) = some (values.map some) := by
  induction names generalizing before values with
  | nil =>
    cases values with
    | nil => rfl
    | cons value rest => cases paired
  | cons name names ih =>
    cases values with
    | nil => cases paired
    | cons value values =>
      obtain ⟨fresh, distinct_rest⟩ := List.nodup_cons.mp distinct
      have none_before : before.filter (·.1 == some name) = [] := by
        rw [List.filter_eq_nil_iff]
        intro member found same
        exact others member found name List.mem_cons_self (by simpa using same)
      have none_after : ((names.map some).zip values).filter (·.1 == some name) = [] := by
        rw [List.filter_eq_nil_iff]
        intro member found same
        have among : member.1 ∈ names.map some := (List.of_mem_zip found).1
        rw [eq_of_beq same] at among
        exact fresh (by simpa using among)
      have here : memberValue (before ++ ((name :: names).map some).zip (value :: values)) name =
          some (some value) := by
        simp [memberValue, none_before, none_after]
      have later :=
        ih (before ++ [(some name, value)]) values ?_ distinct_rest (Nat.succ.inj paired)
      · rw [List.append_assoc, List.singleton_append] at later
        rw [List.mapM_cons, here]
        simp only [List.map_cons, List.zip_cons_cons, bind, Option.bind] at later ⊢
        rw [later]
        rfl
      · intro member found other among same
        rcases List.mem_append.mp found with old | new
        · exact others member old other (List.mem_cons_of_mem _ among) same
        · rw [List.mem_singleton.mp new] at same
          cases same
          exact fresh among

@[simp] theorem read_texts (texts : List String) :
    readTexts (.array (texts.map fun text => .text (some text))) = some texts := by
  induction texts with
  | nil => rfl
  | cons text rest ih =>
    simp only [readTexts, List.map_cons, List.mapM_cons] at ih ⊢
    rw [ih]
    rfl

@[simp] theorem read_count (n : UInt64) : readCount (.number (some n.toNat)) = some n := by
  rw [readCount, if_pos n.toNat_lt_size, UInt64.ofNat_toNat]

@[simp] theorem read_char (c : Char) : readChar (.text (some (String.singleton c))) = some c := by
  simp [readChar, readText]

def values (settings : Settings) : List Json :=
  [.bool settings.enabled,
   .text (some settings.methodName),
   .array (settings.keyMarkers.map fun text => .text (some text)),
   .text (some (String.singleton settings.keySeparator)),
   .bool settings.respectIgnoreFiles,
   .array (settings.ignoredDirectories.map fun text => .text (some text)),
   .number (some settings.workers.toNat),
   .number (some settings.watchPause.toNat)]

theorem to_json_eq (settings : Settings) :
    settings.toJson = .object ((memberNames.map some).zip settings.values) := rfl

@[simp] theorem of_values_values (settings : Settings) :
    ofValues (settings.values.map some) = some settings := by
  simp only [values, List.map_cons, List.map_nil, ofValues, readOr, readBool, readText, read_texts,
    read_char, read_count, bind, Option.bind]

theorem of_json_to_json (settings : Settings) : ofJson settings.toJson = some settings := by
  have distinct : memberNames.Nodup := by decide
  have found := member_values [] memberNames settings.values nofun distinct rfl
  have named : ((memberNames.map some).zip settings.values).any (·.1.isNone) = false := rfl
  rw [List.nil_append] at found
  simp only [to_json_eq, ofJson, named, found, bind, Option.bind]
  exact of_values_values settings

theorem parse_print (settings : Settings) : parse? settings.print = some settings := by
  simp only [parse?, print, Json.parse_pretty, bind, Option.bind, of_json_to_json]

end Printed

/-! The place of the settings. -/
section Place

theorem directory_segments (root : String) :
    ∃ above, Path.segments (directoryIn root).toList = above ++ [directoryName.toList] := by
  have own : Path.segments directoryName.toList = [directoryName.toList] :=
    Path.segments_without_slash (by decide)
  by_cases empty : root = ""
  · have joined : directoryIn root = directoryName := by
      rw [empty]
      decide
    exact ⟨[], by rw [joined, own, List.nil_append]⟩
  · obtain ⟨above, -, -, join_parts⟩ := Path.segments_join empty
    exact ⟨above, by rw [directoryIn, join_parts directoryName (by decide), own]⟩

theorem directory_not_empty (root : String) : directoryIn root ≠ "" := by
  intro empty
  obtain ⟨above, parts⟩ := directory_segments root
  have single : [[]] = above ++ [directoryName.toList] := by
    rw [← parts, empty]
    rfl
  have last : [] = directoryName.toList := by simpa using congrArg List.getLast? single
  exact absurd last (by decide)

theorem path_segments (root : String) :
    Path.segments (pathIn root).toList = Path.segments (directoryIn root).toList ++
      [fileName.toList] := by
  have own : Path.segments fileName.toList = [fileName.toList] :=
    Path.segments_without_slash (by decide)
  obtain ⟨above, -, whole, join_parts⟩ := Path.segments_join (directory_not_empty root)
  rw [pathIn, join_parts fileName (by decide), own]
  rcases whole with same | ended
  · rw [same]
  · -- The directory's own name is its last segment, so there is no slash at its end.
    obtain ⟨before, parts⟩ := directory_segments root
    rw [parts] at ended
    have last : directoryName.toList = [] := by simpa using congrArg List.getLast? ended
    exact absurd last (by decide)

theorem path_no_nul {root : String} (no_nul : '\x00' ∉ (directoryIn root).toList) :
    '\x00' ∉ (pathIn root).toList :=
  Path.not_mem_join (directory_not_empty root) (by decide) (by decide) no_nul (by decide)

theorem directory_is_step : Disk.IsStep directoryName := ⟨by decide, by decide, by decide⟩

theorem file_is_step : Disk.IsStep fileName := ⟨by decide, by decide, by decide⟩

/-- The settings of a workspace have a place: their directory is there or can be made, and no
directory stands where their file belongs. -/
def HasPlace (disk : Disk) (root : String) : Prop :=
  ∃ made, disk.makeDirectories (directoryIn root) = .ok made ∧
    ∀ inside, made.find (pathIn root) ≠ .ok (.directory inside)

theorem path_not_empty (root : String) : pathIn root ≠ "" := by
  intro empty
  have single : [[]] = Path.segments (directoryIn root).toList ++ [fileName.toList] := by
    rw [← path_segments, empty]
    rfl
  have last : [] = fileName.toList := by simpa using congrArg List.getLast? single
  exact absurd last (by decide)

theorem save_iff (disk : Disk) (root : String) (settings : Settings) (saved : Disk) :
    save disk root settings = .ok saved ↔ ∃ made,
      disk.makeDirectories (directoryIn root) = .ok made ∧
      made.write (pathIn root) (Text.toBytes settings.print) = .ok saved := by
  unfold save
  cases disk.makeDirectories (directoryIn root) with
  | error fault => simp [bind, Except.bind]
  | ok made =>
    simp only [bind, Except.bind, Except.ok.injEq, exists_eq_left']
    cases made.write (pathIn root) (Text.toBytes settings.print) with
    | error fault => simp
    | ok written => simp

theorem write_iff {disk made : Disk} {root : String}
    (making : disk.makeDirectories (directoryIn root) = .ok made) (content : Text.Bytes) :
    (∃ saved, made.write (pathIn root) content = .ok saved) ↔
      ∀ inside, made.find (pathIn root) ≠ .ok (.directory inside) := by
  obtain ⟨directory_no_nul, way, entries, followed, place⟩ := Disk.make_directories_follows making
  have no_nul := path_no_nul directory_no_nul
  have found :=
    Disk.find_child no_nul (path_not_empty root) (path_segments root) followed file_is_step place
  simp only [ne_eq, found]
  constructor
  · rintro ⟨saved, written⟩
    obtain ⟨-, above, name, other, parts, other_followed, free⟩ := Disk.write_cases written
    rw [path_segments] at parts
    obtain ⟨rfl, last⟩ := List.append_inj' parts rfl
    have same : fileName = name := String.toList_injective (List.cons.inj last).1
    rw [followed] at other_followed
    cases other_followed
    obtain ⟨_, here, open_place⟩ := free.place
    rw [place] at here
    cases here
    rw [same]
    exact open_place
  · intro open_place
    have free : made.Free way fileName := ⟨file_is_step, entries, place, open_place⟩
    exact ⟨_, Disk.write_free no_nul (path_segments root) followed free content⟩

theorem load_saved {disk saved : Disk} {root : String} {settings : Settings}
    (written : save disk root settings = .ok saved) : load saved root = .ok settings := by
  obtain ⟨made, -, stored⟩ := (save_iff disk root settings saved).mp written
  have there := Disk.write_read stored
  have present : saved.has (pathIn root) = true := by
    rw [Disk.has, there]
    rfl
  have read : saved.readText (pathIn root) = .ok settings.print := by
    simp only [Disk.readText, Disk.readBytes, there, bind, Except.bind, Text.of_bytes_to_bytes]
  simp only [load, present, ↓reduceIte, read, parse_print]

/-- A directory in which nothing is in the way of the settings is a place for them. -/
theorem has_place_of_directory {disk : Disk} {root : String}
    {entries inside : List (String × Entry)} (found : disk.find root = .ok (.directory entries))
    (own : (Entry.child? entries directoryName).getD (.directory []) = .directory inside)
    (open_place : ∀ below, Entry.child? inside fileName ≠ some (.directory below)) :
    HasPlace disk root := by
  obtain ⟨way, followed, here⟩ := find_eq_ok.mp found
  obtain ⟨root_no_nul, some_root, followed⟩ := follow_eq_ok.mp followed
  obtain ⟨above, -, whole, join_parts⟩ := Path.segments_join some_root
  have to_root := follow_above whole followed
  have no_nul : '\x00' ∉ (directoryIn root).toList :=
    Path.not_mem_join some_root (by decide) (by decide) root_no_nul (by decide)
  have parts : Path.segments (directoryIn root).toList = above ++ [directoryName.toList] := by
    rw [directoryIn, join_parts directoryName (by decide)]
    rw [Path.segments_without_slash (show '/' ∉ directoryName.toList by decide)]
  obtain ⟨made, further, making, reached, place⟩ :=
    Disk.make_directory no_nul parts to_root directory_is_step here own
  refine ⟨made, making, ?_⟩
  intro below held
  have child :=
    (Disk.find_child (path_no_nul no_nul) (path_not_empty root) (path_segments root) reached
    file_is_step place _).mp held
  exact open_place below child

end Place

-- The file is written with whatever settings, and only then read: no value of them is refused or
-- changed.
/-- Settings that were saved are loaded as they were; and they can be saved, whatever they are,
exactly if the disk has a place for them, as a directory has in which nothing is in their way. -/
theorem settings_survive (disk : Disk) (root : String) (settings : Settings) :
    (∀ saved, save disk root settings = .ok saved →
      load saved root = .ok settings ∧ loadOrStandard saved root = settings) ∧
    ((∃ saved, save disk root settings = .ok saved) ↔ HasPlace disk root) ∧
    ∀ entries inside, disk.find root = .ok (.directory entries) →
      (Entry.child? entries directoryName).getD (.directory []) = .directory inside →
      (∀ below, Entry.child? inside fileName ≠ some (.directory below)) →
      ∃ saved, save disk root settings = .ok saved := by
  have succeeds : (∃ saved, save disk root settings = .ok saved) ↔ HasPlace disk root := by
    simp only [save_iff]
    rw [exists_comm]
    simp only [exists_and_left]
    exact exists_congr fun made => and_congr_right fun making => write_iff making _
  refine ⟨?_, succeeds, ?_⟩
  · intro saved written
    have loaded := load_saved written
    exact ⟨loaded, by rw [loadOrStandard, loaded]⟩
  · intro entries inside found own open_place
    exact succeeds.mpr (has_place_of_directory found own open_place)

def oddSettings : Settings :=
  { standard with
    methodName := "a\"b\\c\n\x01😀"
    keyMarkers := ["", "é\t/\x7f"]
    keySeparator := '😀'
    ignoredDirectories := []
    workers := 18446744073709551615 }

theorem odd_settings_survive :
    ∃ saved, save ⟨.directory [("w", .directory [])]⟩ "/w" oddSettings = .ok saved ∧
      load saved "/w" = .ok oddSettings := by
  obtain ⟨loaded, -, saves⟩ := settings_survive ⟨.directory [("w", .directory [])]⟩ "/w" oddSettings
  obtain ⟨saved, written⟩ := saves [] [] rfl rfl nofun
  exact ⟨saved, written, (loaded saved written).1⟩

end HandlerIndex.Settings
