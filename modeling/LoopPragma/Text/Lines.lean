namespace LoopPragma.Text

def consPiece (c : Char) (ps : List (List Char)) : List (List Char) :=
  if c = '\n' then [c] :: ps
  else match ps with
    | [] => [[c]]
    | p :: ps => (c :: p) :: ps

-- A cut after every newline. Only the last piece may lack one.
def pieces (cs : List Char) : List (List Char) := cs.foldr consPiece []

@[simp] theorem pieces_nil : pieces [] = [] := rfl

@[simp] theorem pieces_cons (c : Char) (cs : List Char) :
    pieces (c :: cs) = consPiece c (pieces cs) := rfl

theorem flatten_consPiece (c : Char) (ps : List (List Char)) :
    (consPiece c ps).flatten = c :: ps.flatten := by
  unfold consPiece
  split
  · rfl
  · cases ps <;> rfl

theorem flatten_pieces (cs : List Char) : (pieces cs).flatten = cs := by
  induction cs with
  | nil => rfl
  | cons c cs ih => rw [pieces_cons, flatten_consPiece, ih]

-- A piece without its newline, and without the carriage return before that newline.
def withoutEnd (piece : List Char) : List Char :=
  match piece.reverse with
  | '\n' :: '\r' :: r => r.reverse
  | '\n' :: r => r.reverse
  | _ => piece

-- The lines of a text. A carriage return counts as part of a line end only before a newline.
def lines (cs : List Char) : List (List Char) := (pieces cs).map withoutEnd

end LoopPragma.Text
