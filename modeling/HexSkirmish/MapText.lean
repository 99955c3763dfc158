import HexSkirmish.World

/-! The board as text, a character for each tile. Odd rows are indented by one character, as their
hexagons are. -/

namespace HexSkirmish.MapText

def tileSymbol (w : World) (c : Coord) : Char :=
  match w.grid.tileAt? c with
  | some t =>
    if t.isObstacle then '#' else if t.effect = .moveable then '*' else '.'
  | none => '.'

/-- An actor hides the tile that it stands on. -/
def symbol (w : World) (roster : List Actor) (c : Coord) : Char :=
  match roster.find? (·.coord = c) with
  | some a => if a.kind = .player then '@' else 'E'
  | none => tileSymbol w c

def row (w : World) (roster : List Actor) (y : Nat) : List Char :=
  let symbols := (List.range w.grid.layout.width).map fun x =>
    symbol w roster ⟨Int32.ofNat x, Int32.ofNat y⟩
  let indent := if y % 2 = 1 then [' '] else []
  indent ++ symbols.intersperse ' ' ++ ['\n']

def chars (w : World) : List Char :=
  (List.range w.grid.layout.height).flatMap (row w w.roster)

end MapText

def World.mapText (w : World) : String := String.ofList (MapText.chars w)

end HexSkirmish
