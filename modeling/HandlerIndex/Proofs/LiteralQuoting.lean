import HandlerIndex.Php.Quoting
import Mathlib.Data.List.Basic

/-!
The literal decoder undoes quoting. Both kinds of literals are read alike, one step at a time, and
differ only in the escapes that they know; so what the steps have in common is said once, and the
laws follow from it. A body can be cut wherever the backslashes before the cut are paired. Left out
are literals with interpolation, whose text is not known.
-/
namespace HandlerIndex.Php

/-! Writing texts between quotes. -/
section Writing

def singleQuoted (text : List Char) : List Char :=
  text.flatMap fun c => if c = '\\' ∨ c = '\'' then ['\\', c] else [c]

def controlLetters : List (Char × Char) :=
  [('\n', 'n'), ('\t', 't'), ('\r', 'r'), ('\x0b', 'v'), ('\x1b', 'e'), ('\x0c', 'f'),
    ('\x00', '0')]

def doubleQuotedChar (c : Char) (lettered : Bool) : List Char :=
  if c = '\\' ∨ c = '$' ∨ c = '"' then ['\\', c]
  else
    match controlLetters.lookup c, lettered with
    | some letter, true => ['\\', letter]
    | _, _ => [c]

def doubleQuoted (choices : List (Char × Bool)) : List Char :=
  choices.flatMap fun choice => doubleQuotedChar choice.1 choice.2

end Writing

/-! The steps of a decoder. -/
section Steps

/-- What a decoder does at the beginning of a body, if it knows these escapes. -/
structure Decodes (stands : Char → Option Char) (decode : List Char → List Char) : Prop where
  done : decode [] = []
  plain : ∀ c rest, c ≠ '\\' → decode (c :: rest) = c :: decode rest
  known : ∀ e c rest, stands e = some c → decode ('\\' :: e :: rest) = c :: decode rest
  unknown : ∀ e rest, stands e = none → decode ('\\' :: e :: rest) = '\\' :: e :: decode rest
  lone : decode ['\\'] = ['\\']

def protectedChar (c : Char) : Option Char := if c = '\\' ∨ c = '\'' then some c else none

theorem single_plain (c : Char) (rest : List Char) (other : c ≠ '\\') :
    decodeSingleQuoted (c :: rest) = c :: decodeSingleQuoted rest := by
  rw [decodeSingleQuoted]
  · intro _ same
    exact absurd same other
  · intro _ same
    exact absurd same other

theorem single_decodes : Decodes protectedChar decodeSingleQuoted where
  done := by rw [decodeSingleQuoted]
  plain := single_plain
  known e c rest stands := by
    unfold protectedChar at stands
    by_cases sort : e = '\\' ∨ e = '\''
    · rw [if_pos sort] at stands
      cases stands
      rcases sort with rfl | rfl <;> rw [decodeSingleQuoted]
    · rw [if_neg sort] at stands
      cases stands
  unknown e rest stands := by
    unfold protectedChar at stands
    by_cases sort : e = '\\' ∨ e = '\''
    · rw [if_pos sort] at stands
      cases stands
    · rw [not_or] at sort
      rw [decodeSingleQuoted, single_plain e rest sort.1]
      · intro _ _ same
        exact absurd (List.cons.inj same).1 sort.1
      · intro _ _ same
        exact absurd (List.cons.inj same).1 sort.2
  lone := by decide

theorem double_decodes : Decodes escapedChar decodeDoubleQuoted where
  done := by rw [decodeDoubleQuoted]
  plain c rest other := by
    rw [decodeDoubleQuoted]
    intro _ _ same
    exact absurd same other
  known e c rest stands := by rw [decodeDoubleQuoted, stands]
  unknown e rest stands := by rw [decodeDoubleQuoted, stands]
  lone := by decide

/-- Bodies as a decoder goes through them: a backslash takes the next character along. -/
@[elab_as_elim]
theorem body_induction {motive : List Char → Prop} (nil : motive [])
    (plain : ∀ c rest, c ≠ '\\' → motive rest → motive (c :: rest))
    (escape : ∀ e rest, motive rest → motive ('\\' :: e :: rest)) (lone : motive ['\\'])
    (body : List Char) : motive body := by
  induction n : body.length using Nat.strongRecOn generalizing body with
  | ind n ih =>
    cases body with
    | nil => exact nil
    | cons c rest =>
      by_cases slash : c = '\\'
      · subst c
        cases rest with
        | nil => exact lone
        | cons e rest => exact escape e rest (ih rest.length (by simp at n; omega) rest rfl)
      · exact plain c rest slash (ih rest.length (by simp at n; omega) rest rfl)

end Steps

/-! Cutting a body. -/
section Cuts

def endingSlashes (body : List Char) : Nat := (body.reverse.takeWhile (· = '\\')).length

theorem ending_slashes_cons (c : Char) (rest : List Char) :
    endingSlashes (c :: rest) =
      if endingSlashes rest = rest.length ∧ c = '\\' then rest.length + 1
      else endingSlashes rest := by
  unfold endingSlashes
  rw [List.reverse_cons, List.takeWhile_append, List.length_reverse]
  by_cases all : (rest.reverse.takeWhile (· = '\\')).length = rest.length
  · by_cases slash : c = '\\' <;> simp [all, slash]
  · simp [all]

theorem ending_slashes_le (body : List Char) : endingSlashes body ≤ body.length := by
  have shorter := (List.takeWhile_sublist (· = '\\') (l := body.reverse)).length_le
  rwa [List.length_reverse] at shorter

/-- An escape in front changes nothing about whether the backslashes at the end are paired. -/
theorem ending_slashes_escape (e : Char) (rest : List Char) :
    endingSlashes ('\\' :: e :: rest) % 2 = endingSlashes rest % 2 := by
  have bound := ending_slashes_le rest
  rw [ending_slashes_cons, ending_slashes_cons e rest, List.length_cons]
  by_cases all : endingSlashes rest = rest.length
  · by_cases slash : e = '\\'
    · -- The run reaches the beginning, and the escape adds a pair to it.
      simp only [all, slash, and_self, ↓reduceIte]
      omega
    · simp [all, slash]
  · have stops : endingSlashes rest ≠ rest.length + 1 := by omega
    simp [all, stops]

theorem ending_slashes_plain {c : Char} (other : c ≠ '\\') (rest : List Char) :
    endingSlashes (c :: rest) = endingSlashes rest := by
  rw [ending_slashes_cons, if_neg fun both => other both.2]

end Cuts

/-! The laws of a decoder. -/
section Laws
variable {stands : Char → Option Char} {decode : List Char → List Char}
  (decodes : Decodes stands decode)
include decodes

theorem Decodes.escape (e : Char) (rest : List Char) :
    decode ('\\' :: e :: rest) = (stands e).elim ['\\', e] (fun c => [c]) ++ decode rest := by
  cases known : stands e with
  | some c => rw [decodes.known e c rest known]; rfl
  | none => rw [decodes.unknown e rest known]; rfl

-- A lone backslash at the end of the first part would take the first character of the second one
-- along.
theorem Decodes.append {first : List Char} (paired : endingSlashes first % 2 = 0)
    (second : List Char) :
    decode (first ++ second) = decode first ++ decode second := by
  induction first using body_induction with
  | nil => rw [decodes.done]; rfl
  | plain c rest other ih =>
    rw [ending_slashes_plain other] at paired
    rw [List.cons_append, decodes.plain _ _ other, decodes.plain _ _ other, ih paired,
      List.cons_append]
  | escape e rest ih =>
    rw [ending_slashes_escape] at paired
    rw [List.cons_append, List.cons_append, decodes.escape, decodes.escape, ih paired,
      List.append_assoc]
  | lone => exact absurd paired (by decide)

theorem Decodes.unescaped {body : List Char} (free : '\\' ∉ body) : decode body = body := by
  induction body with
  | nil => exact decodes.done
  | cons c rest ih =>
    rw [List.mem_cons, not_or] at free
    rw [decodes.plain c rest (Ne.symm free.1), ih free.2]

/-- Characters that are written so that each of them is decoded by itself are decoded all
together. -/
theorem Decodes.flat_map {α : Type} (char : α → Char) (write : α → List Char)
    (step : ∀ a rest, decode (write a ++ rest) = char a :: decode rest) (written : List α) :
    decode (written.flatMap write) = written.map char := by
  induction written with
  | nil => exact decodes.done
  | cons a rest ih => rw [List.flatMap_cons, step, ih, List.map_cons]

end Laws

theorem single_quoted_step (c : Char) (rest : List Char) :
    decodeSingleQuoted ((if c = '\\' ∨ c = '\'' then ['\\', c] else [c]) ++ rest) =
      c :: decodeSingleQuoted rest := by
  by_cases sort : c = '\\' ∨ c = '\''
  · rw [if_pos sort]
    exact single_decodes.known c c rest (if_pos sort)
  · rw [if_neg sort]
    exact single_decodes.plain c rest fun slash => sort (.inl slash)

theorem control_letter_stands {c letter : Char} (found : controlLetters.lookup c = some letter) :
    escapedChar letter = some c := by
  have table : ∀ pair ∈ controlLetters, escapedChar pair.2 = some pair.1 := by
    simp [controlLetters, escapedChar]
  obtain ⟨before, after, parts, -⟩ := List.lookup_eq_some_iff.mp found
  exact table (c, letter) (by simp [parts])

theorem double_quoted_step (c : Char) (lettered : Bool) (rest : List Char) :
    decodeDoubleQuoted (doubleQuotedChar c lettered ++ rest) = c :: decodeDoubleQuoted rest := by
  unfold doubleQuotedChar
  by_cases sort : c = '\\' ∨ c = '$' ∨ c = '"'
  · rw [if_pos sort]
    have itself : escapedChar c = some c := by rcases sort with rfl | rfl | rfl <;> rfl
    exact double_decodes.known c c rest itself
  · rw [if_neg sort]
    have plain := double_decodes.plain c rest fun slash => sort (.inl slash)
    cases found : controlLetters.lookup c with
    | none => exact plain
    | some letter =>
      cases lettered with
      | false => exact plain
      | true => exact double_decodes.known letter c rest (control_letter_stands found)

/-- Decoding undoes quoting, whichever control characters are written with their letters; it goes
through a body piece by piece, if the backslashes before each cut are paired; and it changes nothing
without backslashes. -/
theorem decoding_inverts_quoting :
    (∀ text, decodeSingleQuoted (singleQuoted text) = text) ∧
    (∀ choices, decodeDoubleQuoted (doubleQuoted choices) = choices.map (·.1)) ∧
    ∀ decode ∈ [decodeSingleQuoted, decodeDoubleQuoted],
      (∀ first second, endingSlashes first % 2 = 0 →
        decode (first ++ second) = decode first ++ decode second) ∧
      ∀ body, '\\' ∉ body → decode body = body := by
  refine ⟨?_, ?_, ?_⟩
  · intro text
    rw [singleQuoted, single_decodes.flat_map (fun c => c) _ single_quoted_step, List.map_id']
  · intro choices
    exact double_decodes.flat_map _ _ (fun choice rest => double_quoted_step choice.1 choice.2 rest)
      choices
  · intro decode member
    have decodes : ∃ stands, Decodes stands decode := by
      rcases List.mem_cons.mp member with rfl | other
      · exact ⟨_, single_decodes⟩
      · rw [List.mem_singleton.mp other]
        exact ⟨_, double_decodes⟩
    obtain ⟨stands, decodes⟩ := decodes
    exact ⟨fun first second paired => decodes.append paired second, fun body free =>
      decodes.unescaped free⟩

theorem paired_slashes_cut :
    endingSlashes ['n', '\\', '\\'] % 2 = 0 ∧
    decodeSingleQuoted (['n', '\\', '\\'] ++ ['\\', '\'', '\\', 'n']) =
      ['n', '\\', '\'', '\\', 'n'] ∧
    decodeDoubleQuoted (['n', '\\', '\\'] ++ ['\\', '\'', '\\', 'n']) =
      ['n', '\\', '\\', '\'', '\n'] ∧
    decodeDoubleQuoted ['$', 'é'] = ['$', 'é'] := by
  obtain ⟨-, -, laws⟩ := decoding_inverts_quoting
  have paired : endingSlashes ['n', '\\', '\\'] % 2 = 0 := by decide
  have single := (laws decodeSingleQuoted List.mem_cons_self).1 _ ['\\', '\'', '\\', 'n'] paired
  have double := laws decodeDoubleQuoted (List.mem_cons_of_mem _ List.mem_cons_self)
  exact ⟨paired, single.trans (by decide), (double.1 _ _ paired).trans (by decide),
    double.2 _ (by decide)⟩

-- A single backslash before the cut makes an escape across it.
example : decodeSingleQuoted (['\\'] ++ ['\'']) ≠
    decodeSingleQuoted ['\\'] ++ decodeSingleQuoted ['\''] := by
  decide

end HandlerIndex.Php
