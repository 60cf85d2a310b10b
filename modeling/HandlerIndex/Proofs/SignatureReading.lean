import HandlerIndex.Proofs.ExtractionMeaning
import Mathlib.Data.List.DropRight

/-!
Reading the signatures that the extractor makes. A signature joins the name of a type and the name
of a method with a dot, and the same dot stands in it for each namespace separator. Where neither
name has a dot of its own, the last dot is the one that joins them, so type and method can be read
back. Backslashes at the two ends of the type's name are all that is lost. Left out are names with
dots, of which the signature does not say how it was joined.
-/
namespace HandlerIndex

/-! Backslashes around a name. -/
section Stripping

/-- A text is a name between backslashes, and the name neither begins nor ends with one. -/
structure StripsTo (text name : List Char) : Prop where
  around : ∃ before after, text = List.replicate before '\\' ++ name ++ List.replicate after '\\'
  begins : name.head? ≠ some '\\'
  ends : name.getLast? ≠ some '\\'

theorem drop_backslashes (count : Nat) (rest : List Char) :
    (List.replicate count '\\' ++ rest).dropWhile (· == '\\') = rest.dropWhile (· == '\\') := by
  apply List.dropWhile_append_of_pos
  intro c member
  rw [List.eq_of_mem_replicate member]
  rfl

theorem strip_padded (before after : Nat) (text : List Char) :
    stripBackslashes (List.replicate before '\\' ++ text ++ List.replicate after '\\') =
      stripBackslashes text := by
  unfold stripBackslashes
  rw [List.append_assoc, drop_backslashes, List.dropWhile_append]
  by_cases nothing : (text.dropWhile (· == '\\')).isEmpty = true
  · rw [if_pos nothing]
    have behind := drop_backslashes after []
    rw [List.append_nil, List.dropWhile_nil] at behind
    rw [behind, List.isEmpty_iff.mp nothing]
  · rw [if_neg nothing, List.reverse_append, List.reverse_replicate, drop_backslashes]

theorem first_dropped (text : List Char) : (text.dropWhile (· == '\\')).head? ≠ some '\\' := by
  intro first
  have stopped := List.head?_dropWhile_not (· == '\\') text
  rw [first] at stopped
  exact absurd stopped (by decide)

theorem dropped_eq {text : List Char} (first : text.head? ≠ some '\\') :
    text.dropWhile (· == '\\') = text := by
  cases text with
  | nil => rfl
  | cons c rest =>
    apply List.dropWhile_cons_of_neg
    intro slash
    exact first (congrArg some (beq_iff_eq.mp slash))

theorem exists_backslashes (text : List Char) :
    ∃ count, text = List.replicate count '\\' ++ text.dropWhile (· == '\\') := by
  have dropped : text.takeWhile (· == '\\') =
      List.replicate (text.takeWhile (· == '\\')).length '\\' := by
    apply List.eq_replicate_of_mem
    intro c member
    have slash := List.mem_takeWhile_imp member
    exact beq_iff_eq.mp slash
  refine ⟨(text.takeWhile (· == '\\')).length, ?_⟩
  rw [← dropped, List.takeWhile_append_dropWhile]

theorem strips_to_iff {text name : List Char} :
    StripsTo text name ↔ stripBackslashes text = name := by
  constructor
  · rintro ⟨⟨before, after, rfl⟩, begins, ends⟩
    rw [← List.head?_reverse] at ends
    rw [strip_padded, stripBackslashes, dropped_eq begins, dropped_eq ends, List.reverse_reverse]
  · rintro rfl
    obtain ⟨before, front⟩ := exists_backslashes text
    obtain ⟨after, back⟩ := exists_backslashes (text.dropWhile (· == '\\')).reverse
    refine ⟨⟨before, after, ?_⟩, ?_, ?_⟩
    · have inner := congrArg List.reverse back
      rw [List.reverse_reverse, List.reverse_append, List.reverse_replicate] at inner
      rw [List.append_assoc, stripBackslashes, ← inner]
      exact front
    · -- The rest begins as it did before its end was cut off, unless nothing is left.
      intro first
      obtain ⟨rest, whole⟩ := List.rdropWhile_prefix (· == '\\') (text.dropWhile (· == '\\'))
      apply first_dropped text
      rw [← whole, List.head?_append]
      exact congrArg (·.or rest.head?) first
    · rw [stripBackslashes, List.getLast?_reverse]
      exact first_dropped _

theorem StripsTo.not_mem {text name : List Char} {c : Char} (stripped : StripsTo text name)
    (absent : c ∉ text) :
    c ∉ name := by
  obtain ⟨before, after, rfl⟩ := stripped.around
  intro member
  exact absent (List.mem_append_left _ (List.mem_append_right _ member))

end Stripping

/-! The names in a signature. -/
section Reading

def dotted (name : List Char) : List Char := name.map fun c => if c = '\\' then '.' else c

def separated (name : List Char) : List Char := name.map fun c => if c = '.' then '\\' else c

def handlerNames (signature : List Char) : List Char × List Char :=
  let behind := signature.reverse.takeWhile (· != '.')
  let before := signature.reverse.dropWhile (· != '.')
  (separated before.tail.reverse, behind.reverse)

theorem separated_dotted {name : List Char} (undotted : '.' ∉ name) :
    separated (dotted name) = name := by
  rw [separated, dotted, List.map_map]
  refine (List.map_congr_left ?_).trans (List.map_id name)
  intro c member
  have other : c ≠ '.' := fun same => undotted (same ▸ member)
  by_cases slash : c = '\\' <;> simp [slash, other]

theorem handler_names_joined {name method : List Char} (plain : '.' ∉ name)
    (undotted : '.' ∉ method) :
    handlerNames (dotted name ++ '.' :: method) = (name, method) := by
  have through : ∀ c ∈ method.reverse, (c != '.') = true := by
    intro c member
    exact bne_iff_ne.mpr fun same => undotted (same ▸ List.mem_reverse.mp member)
  have turned : (dotted name ++ '.' :: method).reverse = method.reverse ++ '.' ::
      (dotted name).reverse := by
    simp
  rw [handlerNames, turned, List.takeWhile_append_of_pos through,
    List.dropWhile_append_of_pos through, List.takeWhile_cons_of_neg (by decide),
    List.dropWhile_cons_of_neg (by decide)]
  simp [separated_dotted plain]

theorem signature_iff {type method signature : String} :
    handlerSignature type method = some signature ↔
      method ≠ "" ∧ ∃ name, name ≠ [] ∧ StripsTo type.toList name ∧
        signature.toList = dotted name ++ '.' :: method.toList := by
  by_cases named : method = ""
  · subst named
    simp [handlerSignature]
  · rw [handler_signature_iff type method signature named]
    constructor
    · rintro ⟨typed, rfl⟩
      exact ⟨named, _, typed, strips_to_iff.mpr rfl, String.toList_ofList⟩
    · rintro ⟨-, name, typed, stripped, letters⟩
      rw [strips_to_iff] at stripped
      subst stripped
      refine ⟨typed, String.toList_injective ?_⟩
      rw [letters, signatureText, String.toList_ofList]
      rfl

end Reading

def backslashes (count : Nat) : String := String.ofList (List.replicate count '\\')

/-- Where no name has a dot, two handlers have one signature exactly if they are methods of one name
and the names of their types differ at most in the backslashes around them. On those backslashes no
signature depends. -/
theorem signatures_identify_handlers :
    (∀ firstType secondType firstMethod secondMethod : String, '.' ∉ firstType.toList →
      '.' ∉ secondType.toList →
      '.' ∉ firstMethod.toList → '.' ∉ secondMethod.toList →
      ((∃ signature, handlerSignature firstType firstMethod = some signature ∧
          handlerSignature secondType secondMethod = some signature) ↔
        firstMethod = secondMethod ∧ firstMethod ≠ "" ∧
          ∃ name, name ≠ [] ∧ StripsTo firstType.toList name ∧ StripsTo secondType.toList name)) ∧
    ∀ (type method : String) (before after : Nat),
      handlerSignature (backslashes before ++ type ++ backslashes after) method =
        handlerSignature type method := by
  refine ⟨?_, ?_⟩
  · intro firstType secondType firstMethod secondMethod first_type_plain second_type_plain
      first_plain second_plain
    constructor
    · rintro ⟨signature, first, second⟩
      obtain ⟨some_method, firstName, some_name, first_stripped, first_joined⟩ :=
        signature_iff.mp first
      obtain ⟨-, secondName, -, second_stripped, second_joined⟩ := signature_iff.mp second
      -- The one signature is read back in two ways.
      have read := handler_names_joined (first_stripped.not_mem first_type_plain) first_plain
      rw [← first_joined, second_joined,
        handler_names_joined (second_stripped.not_mem second_type_plain) second_plain] at read
      obtain ⟨rfl, same⟩ := Prod.mk.inj read
      exact ⟨String.toList_injective same.symm, some_method, secondName, some_name, first_stripped,
        second_stripped⟩
    · rintro ⟨rfl, some_method, name, some_name, first_stripped, second_stripped⟩
      refine ⟨String.ofList (dotted name ++ '.' :: firstMethod.toList), ?_, ?_⟩
      · exact signature_iff.mpr ⟨some_method, name, some_name, first_stripped, String.toList_ofList⟩
      · exact signature_iff.mpr ⟨some_method, name, some_name, second_stripped,
          String.toList_ofList⟩
  · intro type method before after
    simp only [handlerSignature, backslashes, String.toList_append, String.toList_ofList,
      strip_padded]

theorem wrapped_type_identified :
    '.' ∉ "\\\\A\\\\B\\".toList ∧ '.' ∉ "A\\\\B".toList ∧ '.' ∉ "onInit".toList ∧
    handlerSignature "\\\\A\\\\B\\" "onInit" = some "A..B.onInit" ∧
    handlerSignature "A\\\\B" "onInit" = some "A..B.onInit" ∧
    ∃ name, name ≠ [] ∧ StripsTo "\\\\A\\\\B\\".toList name ∧ StripsTo "A\\\\B".toList name := by
  have wrapped : '.' ∉ "\\\\A\\\\B\\".toList := by decide
  have bare : '.' ∉ "A\\\\B".toList := by decide
  have method : '.' ∉ "onInit".toList := by decide
  have first : handlerSignature "\\\\A\\\\B\\" "onInit" = some "A..B.onInit" := by decide +kernel
  have second : handlerSignature "A\\\\B" "onInit" = some "A..B.onInit" := by decide +kernel
  obtain ⟨-, -, types⟩ :=
    (signatures_identify_handlers.1 _ _ _ _ wrapped bare method method).mp ⟨_, first, second⟩
  exact ⟨wrapped, bare, method, first, second, types⟩

-- A dot in a name can be taken for a separator.
example : handlerSignature "A.B" "onInit" = handlerSignature "A\\B" "onInit" := by decide +kernel

end HandlerIndex
