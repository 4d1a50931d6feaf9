import PatternTree.CharClass.Basic

/-!
# Shorthand classes

The letters that name a class after a backslash.  Upper-case letters name the
printable characters outside the class of their lower-case letter, written out
as ranges.
-/

namespace PatternTree.CharClass

/-- The items that the shorthand letter `key` stands for. -/
def shorthand? : Char → Option (List Item)
  | 'd' => some [.range '0' '9']
  | 'D' => some [.range ' ' '/', .range ':' '~']
  | 'w' => some [.range 'a' 'z', .range 'A' 'Z', .range '0' '9', .single '_']
  | 'W' => some [.range ' ' '/', .range ':' '@', .range '[' '^', .single '\x60',
      .range '\x7b' '~']
  | 's' => some [.single ' ', .single '\t', .single '\n', .single '\r', .single '\x0b',
      .single '\x0c']
  | 'S' => some [.range '!' '~']
  | 'h' => some [.range '0' '9', .range 'a' 'f', .range 'A' 'F']
  | 'H' => some [.range ' ' '/', .range ':' '@', .range 'G' '\x60', .range 'g' '~']
  | 't' => some [.single '\t']
  | 'n' => some [.single '\n']
  | 'r' => some [.single '\r']
  | 'f' => some [.single '\x0c']
  | 'a' => some [.single '\x07']
  | 'e' => some [.single '\x1b']
  | 'v' => some [.single '\x0b']
  | _ => none

/-- The class that the shorthand letter `key` stands for. -/
def ofShorthand? (key : Char) : Option CharClass :=
  (shorthand? key).map fun items => { items }

end PatternTree.CharClass
