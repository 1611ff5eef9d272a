/-!
# Text inside markup

Five characters have a meaning of their own in markup and are written as named
entities.  `decode` reads such a text back.
-/

namespace BenchCharts.Text.Markup

/-- The entity that stands for a character, for the characters that have one. -/
def entity? : Char → Option (List Char)
  | '<' => some ['&', 'l', 't', ';']
  | '>' => some ['&', 'g', 't', ';']
  | '&' => some ['&', 'a', 'm', 'p', ';']
  | '"' => some ['&', 'q', 'u', 'o', 't', ';']
  | '\'' => some ['&', 'a', 'p', 'o', 's', ';']
  | _ => none

/-- Writes a text with entities. -/
def encode (cs : List Char) : List Char :=
  cs.flatMap fun c => (entity? c).getD [c]

/-- Reads a text with entities; an ampersand that begins none of the five is
refused, as are the other four characters. -/
def decode : List Char → Option (List Char)
  | [] => some []
  | '&' :: 'l' :: 't' :: ';' :: cs => (decode cs).map ('<' :: ·)
  | '&' :: 'g' :: 't' :: ';' :: cs => (decode cs).map ('>' :: ·)
  | '&' :: 'a' :: 'm' :: 'p' :: ';' :: cs => (decode cs).map ('&' :: ·)
  | '&' :: 'q' :: 'u' :: 'o' :: 't' :: ';' :: cs => (decode cs).map ('"' :: ·)
  | '&' :: 'a' :: 'p' :: 'o' :: 's' :: ';' :: cs => (decode cs).map ('\'' :: ·)
  | c :: cs => if (entity? c).isSome then none else (decode cs).map (c :: ·)

/-- Every character is read back from its written form. -/
theorem decode_encode (cs : List Char) : decode (encode cs) = some cs := by
  induction cs with
  | nil => rfl
  | cons c cs ih =>
      have hcons : encode (c :: cs) = (entity? c).getD [c] ++ encode cs := rfl
      rw [hcons]
      by_cases hlt : c = '<'
      · subst hlt; simp [entity?, decode, ih]
      by_cases hgt : c = '>'
      · subst hgt; simp [entity?, decode, ih]
      by_cases hamp : c = '&'
      · subst hamp; simp [entity?, decode, ih]
      by_cases hquote : c = '"'
      · subst hquote; simp [entity?, decode, ih]
      by_cases hapos : c = '\''
      · subst hapos; simp [entity?, decode, ih]
      have hplain : entity? c = none := by
        unfold entity?
        split <;> simp_all
      rw [hplain]
      simp only [Option.getD_none, List.singleton_append]
      unfold decode
      split <;> simp_all

end BenchCharts.Text.Markup
