/-
Texts, as the sequences of their characters.
-/

/-- A text.  The model keeps texts as lists of characters wherever the source
walks over the characters of a `str` or over its bytes. -/
abbrev Text := List Char
