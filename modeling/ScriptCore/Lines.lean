/-!
# Lines

The lines of a text. A line ends at a line feed, and a carriage return right before the line feed
belongs to the end of the line. Any other carriage return is part of its line. What follows the
last line feed is a line of its own, unless nothing does.
-/

namespace ScriptCore

namespace Lines

/-- Drop a carriage return from the front of a line whose characters come latest first. -/
def dropReturn : List Char → List Char
  | '\r' :: line => line
  | line => line

/-- The lines of the characters to come, when those of the line begun are `line`, latest first. -/
def split (line : List Char) : List Char → List (List Char)
  | [] => if line.isEmpty then [] else [line.reverse]
  | c :: rest =>
    if c = '\n' then (dropReturn line).reverse :: split [] rest else split (c :: line) rest

/-- The first line is what stands before the first line feed, less a carriage return at its end. -/
theorem split_append_newline (line body rest : List Char) (h : '\n' ∉ body) :
    split line (body ++ '\n' :: rest)
      = (dropReturn (body.reverse ++ line)).reverse :: split [] rest := by
  induction body generalizing line with
  | nil => simp only [List.nil_append, List.reverse_nil, split, if_pos]
  | cons c body ih =>
    have hc : c ≠ '\n' := fun e => h (e ▸ List.mem_cons_self)
    rw [List.cons_append, split, if_neg hc, ih (c :: line) fun m => h (List.mem_cons_of_mem c m),
      List.reverse_cons, List.append_assoc, List.singleton_append]

end Lines

/-- The lines of a text, without their ends. -/
def lines (text : String) : List String := (Lines.split [] text.toList).map String.ofList

end ScriptCore
