/-!
The filters of the rows of an image: each byte is stored as its difference from what its neighbours let
expect, the byte of the pixel on the left, the one above and the one across.
-/
namespace PortableSql.Png

/-- The neighbour that is nearest to the sum of left and above less the one across. -/
def paeth (left above across : Nat) : Nat :=
  let estimate : Int := left + above - across
  let a := (estimate - left).natAbs
  let b := (estimate - above).natAbs
  let c := (estimate - across).natAbs
  if a ≤ b ∧ a ≤ c then left else if b ≤ c then above else across

/-- What a filter adds to a byte. -/
def prediction? (filter : UInt8) (left above across : Nat) : Option Nat :=
  match filter with
  | 0 => some 0
  | 1 => some left
  | 2 => some above
  | 3 => some ((left + above) / 2)
  | 4 => some (paeth left above across)
  | _ => none

/-- Undoes the filter of a row. `step` is the distance to the byte on the left, and `done` holds the bytes
so far. -/
def unfilterRow (filter : UInt8) (step : Nat) (above : Array UInt8) (done : Array UInt8) :
    List UInt8 → Option (Array UInt8)
  | [] => some done
  | b :: rest =>
    let i := done.size
    let at? (bytes : Array UInt8) (i : Nat) : Nat := (bytes[i]?.getD 0).toNat
    let left := if step ≤ i then at? done (i - step) else 0
    let across := if step ≤ i then at? above (i - step) else 0
    match prediction? filter left (at? above i) across with
    | some p => unfilterRow filter step above (done.push (UInt8.ofNat (b.toNat + p))) rest
    | none => none

/-- Undoes the filters of rows. -/
def unfilterRows (step rowLength : Nat) : Nat → Array UInt8 → List UInt8 →
    Option (List (List UInt8) × List UInt8)
  | 0, _, bytes => some ([], bytes)
  | rows + 1, above, bytes =>
    match bytes with
    | [] => none
    | filter :: rest =>
      if rest.length < rowLength then none
      else
        match unfilterRow filter step above #[] (rest.take rowLength) with
        | none => none
        | some row =>
          (unfilterRows step rowLength rows row (rest.drop rowLength)).map fun (later, behind) =>
            (row.toList :: later, behind)

end PortableSql.Png
