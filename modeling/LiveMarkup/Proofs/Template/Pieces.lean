import LiveMarkup.Template

/-!
# A template as one sequence

What is written in a template is a sequence of characters and embedded values
(`Piece`). Cutting it at the values gives the segments and the values that are
compiled. The reader may as well be given the sequence: it takes one piece after
the other, looks at the next one only if that is a character, and skips one in
two cases only, the second character of `/>` or `="` and the quote after a value
(`Reader.readOut_char`, `Reader.readOut_value`).
-/

namespace LiveMarkup.Template

/-- A character or a value embedded in a template. -/
inductive Piece where
  | char (c : Char)
  | value (v : Value)

namespace Piece

/-- Characters as pieces. -/
def chars (cs : List Char) : List Piece :=
  cs.map .char

/-- The characters in front of the first value, and every value with the
characters behind it. -/
def cut : List Piece → List Char × List (Value × List Char)
  | [] => ([], [])
  | .char c :: ps => (c :: (cut ps).1, (cut ps).2)
  | .value v :: ps => ([], (v, (cut ps).1) :: (cut ps).2)

/-- The characters between the values. -/
def literals (ps : List Piece) : List (List Char) :=
  (cut ps).1 :: (cut ps).2.map (·.2)

/-- The values in order. -/
def embedded (ps : List Piece) : List Value :=
  (cut ps).2.map (·.1)

/-- The first piece, if it is a character. -/
def next : List Piece → Option Char
  | .char c :: _ => some c
  | _ => none

/-- The pieces without the first one, if that is a character. -/
def skip : List Piece → List Piece
  | .char _ :: ps => ps
  | ps => ps

/-- The pieces without the first one, if that is the quote given. -/
def unquote (quote : Option Char) : List Piece → List Piece
  | .char c :: ps => if quote = some c then ps else .char c :: ps
  | ps => ps

@[simp] theorem chars_nil : chars [] = [] := rfl

@[simp] theorem chars_cons (c : Char) (cs : List Char) :
    chars (c :: cs) = .char c :: chars cs := rfl

theorem chars_append (cs ds : List Char) : chars (cs ++ ds) = chars cs ++ chars ds :=
  List.map_append

theorem cut_chars (cs : List Char) : cut (chars cs) = (cs, []) := by
  induction cs with
  | nil => rfl
  | cons c cs ih => rw [chars_cons, cut, ih]

theorem unquote_none (ps : List Piece) : unquote none ps = ps := by
  cases ps with
  | nil => rfl
  | cons p ps => cases p <;> rfl

theorem head?_cut (ps : List Piece) : (cut ps).1.head? = next ps := by
  cases ps with
  | nil => rfl
  | cons p ps => cases p <;> rfl

theorem cut_skip (ps : List Piece) : cut (skip ps) = ((cut ps).1.tail, (cut ps).2) := by
  cases ps with
  | nil => rfl
  | cons p ps => cases p <;> rfl

theorem cut_unquote (quote : Option Char) (ps : List Piece) :
    cut (unquote quote ps) = (Reader.dropQuote quote (cut ps).1, (cut ps).2) := by
  cases ps with
  | nil => rfl
  | cons p ps =>
      cases p with
      | char c =>
          rw [unquote, cut, Reader.dropQuote]
          split <;> rfl
      | value v => rfl

end Piece

open Piece

namespace Reader

variable (components : Components)

/-- The items of a template of which some pieces are left to read. -/
def readOut (r : Reader) (ps : List Piece) : Except MarkupError (List Value) :=
  r.readAll components none (literals ps) (embedded ps) >>= finish components

theorem dropQuote_none (cs : List Char) : dropQuote none cs = cs := by
  cases cs <;> rfl

theorem readAll_cons (r : Reader) (quote : Option Char) (cs : List Char)
    (segments : List (List Char)) (values : List Value) :
    r.readAll components quote (cs :: segments) values =
      match r.read components (dropQuote quote cs), values with
      | .error e, _ => .error e
      | .ok r, [] => r.readAll components none segments []
      | .ok r, v :: values =>
        (r.embed v).1.readAll components (r.embed v).2 segments values := by
  cases values <;> rfl

/-- With nothing left to read everything open is closed. -/
theorem readOut_nil (r : Reader) : r.readOut components [] = r.finish components := rfl

/-- With nothing but characters left they are read and then everything open is closed. -/
theorem readOut_chars (r : Reader) (cs : List Char) :
    r.readOut components (chars cs) = r.read components cs >>= finish components := by
  rw [readOut, literals, embedded, cut_chars, List.map_nil, readAll_cons, dropQuote_none]
  cases r.read components cs <;> rfl

/-- One character is one step of the reader. -/
theorem readOut_char (r : Reader) (c : Char) (ps : List Piece) :
    r.readOut components (.char c :: ps) =
      match r.step components c (next ps) with
      | .error e => .error e
      | .ok (r, both) => r.readOut components (if both then skip ps else ps) := by
  have hsegments : literals (.char c :: ps) = (c :: (cut ps).1) :: (cut ps).2.map (·.2) := rfl
  have hvalues : embedded (.char c :: ps) = embedded ps := rfl
  rw [readOut, hsegments, hvalues, readAll_cons, dropQuote_none, read_cons, head?_cut]
  cases r.step components c (next ps) with
  | error e => rfl
  | ok s =>
      obtain ⟨r, both⟩ := s
      cases both with
      | false =>
          dsimp only
          rw [if_neg Bool.false_ne_true, if_neg Bool.false_ne_true, readOut, literals, readAll_cons,
            dropQuote_none]
      | true =>
          dsimp only
          rw [if_pos rfl, if_pos rfl, readOut, literals, embedded, embedded, cut_skip, readAll_cons,
            dropQuote_none]

/-- A value is embedded at once, and the quote behind it may be skipped. -/
theorem readOut_value (r : Reader) (v : Value) (ps : List Piece) :
    r.readOut components (.value v :: ps) =
      (r.embed v).1.readOut components (unquote (r.embed v).2 ps) := by
  have hread : r.readAll components none (literals (.value v :: ps)) (embedded (.value v :: ps)) =
      (r.embed v).1.readAll components (r.embed v).2 (literals ps) (embedded ps) := rfl
  rw [readOut, hread, readOut, literals, literals, embedded, embedded, cut_unquote, readAll_cons,
    readAll_cons, dropQuote_none]

end Reader

/-- Compiling the segments and values of a sequence is reading it. -/
theorem compile_cut (components : Components) (ps : List Piece) :
    compile components ((literals ps).map String.ofList) (embedded ps) =
      ({} : Reader).readOut components ps := by
  have htoList : ((literals ps).map String.ofList).map String.toList = literals ps := by
    rw [List.map_map]
    exact (List.map_congr_left fun cs _ => String.toList_ofList).trans (List.map_id _)
  rw [compile, htoList, Reader.readOut]
  cases ({} : Reader).readAll components none (literals ps) (embedded ps) <;> rfl

end LiveMarkup.Template
