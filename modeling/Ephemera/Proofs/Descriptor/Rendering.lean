import Ephemera.Descriptor
import Mathlib.Data.List.Basic

/-!
# Reading a descriptor's text

In a field that neither cuts nor fills, a descriptor is rendered as the texts of its parameters in
brackets, with commas between them, and the text of its result behind (`bracketed`).
`readBracketed` takes such a text apart again: what stands before the first closing bracket is cut
at the commas, and the rest belongs to the result.

What is read is always what was written (`bracketed_of_readBracketed`), but it need not be what was
meant. A comma or a closing bracket in the text of a parameter is taken for one of the
descriptor's own, and a parameter without any text is not seen if it is alone (`bracketed_comma`,
`bracketed_bracket`, `bracketed_empty`). Where this is ruled out (`Separable`), reading gives back
the texts that were rendered, whatever the text of the result is.
-/

namespace Ephemera

open Text

/-! ## Bare fields -/

/-- No least width is asked for, and nothing is cut. -/
structure Text.Field.IsBare (f : Field) : Prop where
  /-- any width will do -/
  width : f.width = 0
  /-- texts are taken as a whole -/
  precision : f.precision = none

/-- A bare field leaves a text as it is, whatever its alignment and its fill character are. -/
theorem Text.Field.IsBare.write_eq {f : Field} (h : f.IsBare) (text : String) :
    f.write text = text := by
  have hcut : f.cut text.toList = text.toList := by
    rw [Field.cut, h.precision]
  have hmargins : Field.margins f.alignment 0 = (0, 0) := by
    cases f.alignment <;> rfl
  simp [Field.write, hcut, hmargins, h.width]

/-! ## Texts in brackets -/

/-- Texts in brackets, with commas between them, and another text behind. -/
def bracketed (inner : List String) (behind : String) : String :=
  "(" ++ ",".intercalate inner ++ ")" ++ behind

/-- The texts between the commas. Where there is nothing, there is no text. -/
def cutAtCommas (chars : List Char) : List String :=
  if chars = [] then [] else (chars.splitOn ',').map String.ofList

/-- The texts in brackets, and the text behind. -/
def readBracketed (text : String) : Option (List String × String) :=
  match text.toList with
  | '(' :: rest =>
    match rest.dropWhile (· != ')') with
    | [] => none
    | _ :: behind => some (cutAtCommas (rest.takeWhile (· != ')')), String.ofList behind)
  | _ => none

/-- A text that has a place of its own between brackets and commas. -/
structure Separable (text : String) : Prop where
  /-- there is something to see -/
  nonempty : text ≠ ""
  /-- it does not end before its end -/
  comma : ',' ∉ text.toList
  /-- neither do the brackets -/
  bracket : ')' ∉ text.toList

instance (text : String) : Decidable (Separable text) :=
  decidable_of_iff (text ≠ "" ∧ ',' ∉ text.toList ∧ ')' ∉ text.toList)
    ⟨fun ⟨hnonempty, hcomma, hbracket⟩ => ⟨hnonempty, hcomma, hbracket⟩,
      fun h => ⟨h.nonempty, h.comma, h.bracket⟩⟩

variable {inner : List String} {behind text : String}

theorem toList_bracketed (inner : List String) (behind : String) :
    (bracketed inner behind).toList
      = '(' :: ([','].intercalate (inner.map String.toList) ++ ')' :: behind.toList) := by
  simp [bracketed]

/-- A character between two texts is one of the separator. -/
theorem exists_of_mem_intercalate {c sep : Char} {parts : List (List Char)}
    (h : c ∈ [sep].intercalate parts) : c = sep ∨ ∃ part ∈ parts, c ∈ part := by
  induction parts with
  | nil => cases h
  | cons part parts ih =>
    cases parts with
    | nil => exact .inr ⟨part, List.mem_singleton_self part, by simpa using h⟩
    | cons next parts =>
      rw [List.intercalate_cons_cons, List.mem_append, List.mem_append, List.mem_singleton] at h
      rcases h with (h | rfl) | h
      · exact .inr ⟨part, List.mem_cons_self, h⟩
      · exact .inl rfl
      · rcases ih h with heq | ⟨other, hmem, hc⟩
        · exact .inl heq
        · exact .inr ⟨other, List.mem_cons_of_mem part hmem, hc⟩

/-- Texts that were joined come apart again. -/
theorem cutAtCommas_intercalate (h : ∀ t ∈ inner, Separable t) :
    cutAtCommas ([','].intercalate (inner.map String.toList)) = inner := by
  cases inner with
  | nil => rfl
  | cons first others =>
    have hnil : first.toList ≠ [] := fun hnil =>
      (h first List.mem_cons_self).nonempty (String.toList_eq_nil_iff.mp hnil)
    have hjoined : [','].intercalate ((first :: others).map String.toList) ≠ [] := by
      cases others <;> simp [hnil]
    have hcommas : ∀ part ∈ (first :: others).map String.toList, ',' ∉ part := by
      intro part hmem
      obtain ⟨t, ht, rfl⟩ := List.mem_map.mp hmem
      exact (h t ht).comma
    have htexts : String.ofList ∘ String.toList = id := funext fun _ => String.ofList_toList
    rw [cutAtCommas, if_neg hjoined, List.splitOn_intercalate ',' hcommas (by simp), List.map_map,
      htexts, List.map_id]

/-- What was cut can be joined. -/
theorem intercalate_cutAtCommas (chars : List Char) :
    [','].intercalate ((cutAtCommas chars).map String.toList) = chars := by
  rw [cutAtCommas]
  split
  · next hnil => rw [hnil]; rfl
  · have hchars : String.toList ∘ String.ofList = id := funext fun _ => String.toList_ofList
    rw [List.map_map, hchars, List.map_id, List.intercalate_splitOn]

/-- Separable texts in brackets are read as they were written. -/
theorem readBracketed_bracketed (h : ∀ t ∈ inner, Separable t) (behind : String) :
    readBracketed (bracketed inner behind) = some (inner, behind) := by
  have hinside : ∀ c ∈ [','].intercalate (inner.map String.toList), (c != ')') = true := by
    intro c hc
    rw [bne_iff_ne]
    rintro rfl
    rcases exists_of_mem_intercalate hc with heq | ⟨part, hpart, hmem⟩
    · cases heq
    · obtain ⟨t, ht, rfl⟩ := List.mem_map.mp hpart
      exact (h t ht).bracket hmem
  simp [readBracketed, toList_bracketed, List.dropWhile_append_of_pos hinside,
    List.takeWhile_append_of_pos hinside, cutAtCommas_intercalate h]

/-- Whatever is read was written so. -/
theorem bracketed_of_readBracketed (h : readBracketed text = some (inner, behind)) :
    bracketed inner behind = text := by
  rw [readBracketed] at h
  split at h
  · next rest htext =>
    split at h
    · cases h
    · next c after hdrop =>
      cases h
      have hclosing : c = ')' := by
        have hnot := List.head?_dropWhile_not (· != ')') rest
        rw [hdrop] at hnot
        simpa using hnot
      have hrest := List.takeWhile_append_dropWhile (p := (· != ')')) (l := rest)
      rw [hdrop, hclosing] at hrest
      rw [← String.toList_inj, toList_bracketed, intercalate_cutAtCommas, String.toList_ofList,
        htext, hrest]
  · cases h

/-! ## Texts that are not separable -/

/-- A single text that is empty is not seen. -/
theorem bracketed_empty (behind : String) : bracketed [""] behind = bracketed [] behind := by
  simp [bracketed]

/-- A comma makes two texts of one. -/
theorem bracketed_comma (t t' behind : String) :
    bracketed [t ++ "," ++ t'] behind = bracketed [t, t'] behind := by
  simp [bracketed]

/-- A closing bracket ends a text. -/
theorem bracketed_bracket (t t' behind : String) :
    bracketed [t ++ ")" ++ t'] behind = bracketed [t] (t' ++ ")" ++ behind) := by
  simp [bracketed, String.append_assoc]

/-! ## Descriptors -/

namespace Descriptor

variable {f f' : Field} {d d' : Descriptor}

/-- In a bare field nothing but the texts of the components shows. -/
theorem render_eq_bracketed (hf : f.IsBare) (d : Descriptor) :
    d.render f = bracketed (d.params.map Key.text) d.result.text := by
  simp only [render, hf.write_eq, bracketed]

/-- Descriptors whose parameters have separable texts are rendered alike if and only if their
components have the same texts, and these can be read off. -/
theorem render_unambiguous (hf : f.IsBare) (hf' : f'.IsBare)
    (hd : ∀ p ∈ d.params, Separable p.text) (hd' : ∀ p ∈ d'.params, Separable p.text) :
    readBracketed (d.render f) = some (d.params.map Key.text, d.result.text) ∧
      (d.render f = d'.render f'
        ↔ d.result.text = d'.result.text ∧ d.params.map Key.text = d'.params.map Key.text) := by
  have hread : ∀ {d : Descriptor} {f : Field}, f.IsBare → (∀ p ∈ d.params, Separable p.text) →
      readBracketed (d.render f) = some (d.params.map Key.text, d.result.text) := by
    intro d f hf hd
    rw [render_eq_bracketed hf]
    exact readBracketed_bracketed (List.forall_mem_map.mpr hd) _
  refine ⟨hread hf hd, fun h => ?_, ?_⟩
  · have hsame := hread hf' hd'
    rw [← h, hread hf hd, Option.some.injEq, Prod.mk.injEq] at hsame
    exact hsame.symm
  · rintro ⟨hresult, hparams⟩
    rw [render_eq_bracketed hf, render_eq_bracketed hf', hresult, hparams]

/-- The text of the result has commas and brackets in it. Another descriptor with the same texts
looks the same, and one that has a part of the result's text among its parameters does not. -/
theorem render_unambiguous_lookalike :
    let result : Key := ⟨0, "r", ",c)d", 64⟩
    let d : Descriptor := ⟨result, [⟨1, "k", "a", 128⟩, ⟨2, "l", "(b", 192⟩]⟩
    let d' : Descriptor := ⟨⟨3, "s", ",c)d", 256⟩, [⟨1, "k", "a", 128⟩, ⟨4, "m", "(b", 320⟩]⟩
    let d'' : Descriptor := ⟨⟨5, "t", "d", 384⟩, d.params ++ [⟨6, "n", "c", 448⟩]⟩
    let field : Field := ⟨0, none, .center, '*'⟩
    readBracketed (d.render field) = some (["a", "(b"], ",c)d") ∧
      d.render field = d'.render .plain ∧ d.render field ≠ d''.render field := by
  intro result d d' d'' field
  have hfield : field.IsBare := ⟨rfl, rfl⟩
  have hplain : Field.plain.IsBare := ⟨rfl, rfl⟩
  have hd : ∀ p ∈ d.params, Separable p.text := by decide
  have hd' : ∀ p ∈ d'.params, Separable p.text := by decide
  have hd'' : ∀ p ∈ d''.params, Separable p.text := by decide
  refine ⟨(render_unambiguous hfield hplain hd hd').1,
    (render_unambiguous hfield hplain hd hd').2.mpr ⟨rfl, rfl⟩, fun h => ?_⟩
  have hresult := ((render_unambiguous hfield hfield hd hd'').2.mp h).1
  exact absurd hresult (by decide)

end Descriptor

end Ephemera
