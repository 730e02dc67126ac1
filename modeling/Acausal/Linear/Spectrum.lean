-- Eigenvalues of a real matrix. Up to two rows they are written down; a larger matrix is
-- brought to a form that is zero below the first subdiagonal and then reduced by shifted
-- rotations until one eigenvalue after the other stands alone on the diagonal.

namespace Acausal

/-! ## Complex numbers -/

structure ComplexFloat where
  re : Float
  im : Float

namespace ComplexFloat

instance : Add ComplexFloat := ⟨fun x y => ⟨x.re + y.re, x.im + y.im⟩⟩
instance : Sub ComplexFloat := ⟨fun x y => ⟨x.re - y.re, x.im - y.im⟩⟩
instance : Mul ComplexFloat :=
  ⟨fun x y => ⟨x.re * y.re - x.im * y.im, x.re * y.im + x.im * y.re⟩⟩
instance : Neg ComplexFloat := ⟨fun x => ⟨-x.re, -x.im⟩⟩
instance : Inhabited ComplexFloat := ⟨⟨0.0, 0.0⟩⟩

def ofReal (x : Float) : ComplexFloat := ⟨x, 0.0⟩

def conjugate (x : ComplexFloat) : ComplexFloat := ⟨x.re, -x.im⟩

def scale (c : Float) (x : ComplexFloat) : ComplexFloat := ⟨c * x.re, c * x.im⟩

/-- The length of a complex number, found without overflow on the way. -/
def norm (x : ComplexFloat) : Float :=
  let a := x.re.abs
  let b := x.im.abs
  if a.isInf || b.isInf then 1.0 / 0.0
  else
    let large := if a < b then b else a
    let small := if a < b then a else b
    if large == 0.0 then large + small
    else
      let ratio := small / large
      large * Float.sqrt (1.0 + ratio * ratio)

/-- A square root, the one whose real part is not negative. -/
def sqrt (x : ComplexFloat) : ComplexFloat :=
  let length := x.norm
  if length == 0.0 then ofReal 0.0
  else
    let large := Float.sqrt ((length + x.re.abs) / 2.0)
    let small := x.im / (2.0 * large)
    if 0.0 ≤ x.re then ⟨large, small⟩
    else if 0.0 ≤ x.im then ⟨small, large⟩ else ⟨-small, -large⟩

end ComplexFloat

/-! ## Two rows -/

/-- The eigenvalues of a matrix of two rows. Without an entry below the diagonal they are the
diagonal; otherwise they come from the quadratic formula. -/
def twoEigenvalues (a b c d : Float) : List ComplexFloat :=
  if c == 0.0 then [.ofReal a, .ofReal d]
  else
    let half := (a - d) / 2.0
    let discriminant := c * b + half * half
    let center := (a + d) / 2.0
    if 0.0 ≤ discriminant then
      let root := Float.sqrt discriminant
      [.ofReal (center + root), .ofReal (center - root)]
    else
      let root := Float.sqrt (-discriminant)
      [⟨center, root⟩, ⟨center, -root⟩]

/-! ## More rows -/

namespace Spectrum

/-- A matrix of complex numbers by rows; entries outside it read as zero. -/
abbrev Entries := Array (Array ComplexFloat)

def entry (m : Entries) (i j : Nat) : ComplexFloat := (m.getD i #[]).getD j (.ofReal 0.0)

def setEntry (m : Entries) (i j : Nat) (x : ComplexFloat) : Entries :=
  m.modify i fun row => row.setIfInBounds j x

/-- Adds a multiple of one row to another and takes the same multiple of columns back, which
keeps the eigenvalues. -/
def addRow (n : Nat) (m : Entries) (target source : Nat) (factor : ComplexFloat) : Entries :=
  let rows := (List.range n).foldl (fun m j =>
    setEntry m target j (entry m target j + factor * entry m source j)) m
  (List.range n).foldl (fun m i =>
    setEntry m i source (entry m i source - factor * entry m i target)) rows

/-- Exchanges two rows and the two columns of the same numbers. -/
def exchange (n : Nat) (m : Entries) (i j : Nat) : Entries :=
  let rows := m.swapIfInBounds i j
  (List.range n).foldl (fun m r => m.modify r fun row => row.swapIfInBounds i j) rows

/-- The quotient of two complex numbers. -/
def quotient (x y : ComplexFloat) : ComplexFloat :=
  let length := y.norm
  ((x * y.conjugate).scale (1.0 / length)).scale (1.0 / length)

/-- Clears a column below the first subdiagonal, with the largest entry as the pivot. -/
def reduceColumn (n : Nat) (m : Entries) (column : Nat) : Entries :=
  let below := (List.range n).drop (column + 1)
  let pivot := below.foldl (fun best i =>
    if (entry m best column).norm < (entry m i column).norm then i else best) (column + 1)
  if (entry m pivot column).norm == 0.0 then m
  else
    let m := exchange n m (column + 1) pivot
    (below.drop 1).foldl (fun m i =>
      let factor := quotient (entry m i column) (entry m (column + 1) column)
      addRow n m i (column + 1) (-factor)) m

/-- A matrix with the same eigenvalues and nothing below the first subdiagonal. -/
def nearlyTriangular (n : Nat) (m : Entries) : Entries :=
  (List.range (n - 2)).foldl (reduceColumn n) m

/-- Whether a subdiagonal entry is lost beside its neighbours on the diagonal. -/
def isNegligible (m : Entries) (i : Nat) : Bool :=
  let here := (entry m i (i - 1)).norm
  let around := (entry m i i).norm + (entry m (i - 1) (i - 1)).norm
  here ≤ 1.1e-16 * around

/-- The first row of the block that ends with a given row. -/
def blockStart (m : Entries) : Nat → Nat
  | 0 => 0
  | i + 1 => if isNegligible m (i + 1) then i + 1 else blockStart m i

/-- The eigenvalue of the last two rows of a block that is nearer to its last entry. -/
def shift (m : Entries) (last : Nat) : ComplexFloat :=
  let a := entry m (last - 1) (last - 1)
  let b := entry m (last - 1) last
  let c := entry m last (last - 1)
  let d := entry m last last
  let half := (a - d).scale 0.5
  let root := (half * half + b * c).sqrt
  let center := (a + d).scale 0.5
  let first := center + root
  let second := center - root
  if (first - d).norm < (second - d).norm then first else second

/-- A rotation that turns a pair of numbers into one number and a zero. -/
structure Rotation where
  row : Nat
  cosine : ComplexFloat
  sine : ComplexFloat

/-- Rotates two neighbouring rows so that the subdiagonal entry of the first becomes zero. -/
def rotateRows (n : Nat) (m : Entries) (k : Nat) : Entries × Rotation :=
  let x := entry m k k
  let y := entry m (k + 1) k
  let length := (ComplexFloat.mk x.norm y.norm).norm
  let rotation : Rotation :=
    if length == 0.0 then ⟨k, .ofReal 1.0, .ofReal 0.0⟩
    else ⟨k, x.scale (1.0 / length), y.scale (1.0 / length)⟩
  let m := (List.range n).foldl (fun m j =>
    let top := entry m k j
    let low := entry m (k + 1) j
    let m := setEntry m k j (rotation.cosine.conjugate * top + rotation.sine.conjugate * low)
    setEntry m (k + 1) j (rotation.cosine * low - rotation.sine * top)) m
  (m, rotation)

/-- Rotates the two columns of a rotation back. -/
def rotateColumns (n : Nat) (m : Entries) (r : Rotation) : Entries :=
  (List.range n).foldl (fun m i =>
    let left := entry m i r.row
    let right := entry m i (r.row + 1)
    let m := setEntry m i r.row (left * r.cosine + right * r.sine)
    setEntry m i (r.row + 1) (right * r.cosine.conjugate - left * r.sine.conjugate)) m

/-- Adds a number to the diagonal of a block. -/
def shiftDiagonal (m : Entries) (first last : Nat) (x : ComplexFloat) : Entries :=
  (List.range (last + 1 - first)).foldl (fun m k =>
    setEntry m (first + k) (first + k) (entry m (first + k) (first + k) + x)) m

/-- A shift by the size of the subdiagonal, for blocks on which the usual one turns in circles. -/
def outerShift (m : Entries) (last : Nat) : ComplexFloat :=
  .ofReal ((entry m last (last - 1)).norm + (entry m (last - 1) (last - 2)).norm)

/-- One round of rotations on a block, shifted by a number. -/
def sweep (n : Nat) (m : Entries) (first last : Nat) (x : ComplexFloat) : Entries :=
  let start := (shiftDiagonal m first last (-x), ([] : List Rotation))
  let (m, rotations) := (List.range (last - first)).foldl (fun (m, done) k =>
    let (m, r) := rotateRows n m (first + k)
    (m, done ++ [r])) start
  shiftDiagonal (rotations.foldl (rotateColumns n) m) first last x

/-- The diagonal once everything below it is negligible, from the last row upwards. The budget
bounds the rounds, of which a few are enough for each row; one in ten has the other shift. -/
def deflate (n : Nat) : Nat → Entries → Nat → List ComplexFloat
  | _, m, 0 => [entry m 0 0]
  | 0, m, last => (List.range (last + 1)).map fun i => entry m i i
  | budget + 1, m, last =>
    let first := blockStart m last
    if first = last then entry m last last :: deflate n budget m (last - 1)
    else
      let x := if budget % 10 = 5 then outerShift m last else shift m last
      deflate n budget (sweep n m first last x) last

/-- The eigenvalues of a matrix of three or more rows. -/
def eigenvalues (n : Nat) (rows : Array (Array Float)) : List ComplexFloat :=
  let m : Entries := rows.map fun row => row.map .ofReal
  deflate n (100 * n) (nearlyTriangular n m) (n - 1)

end Spectrum

/-- The eigenvalues of a square matrix given by its rows. -/
def eigenvalues (rows : Array (Array Float)) : List ComplexFloat :=
  let at2 := fun i j => (rows.getD i #[]).getD j 0.0
  match rows.size with
  | 0 => []
  | 1 => [.ofReal (at2 0 0)]
  | 2 => twoEigenvalues (at2 0 0) (at2 0 1) (at2 1 0) (at2 1 1)
  | n => Spectrum.eigenvalues n rows

end Acausal
