-- Explicit Runge-Kutta methods. A tableau says how each stage mixes the slopes of the stages
-- before it and how the step mixes all of them; the step itself is the same for every tableau.
import Acausal.Solver.Basic

namespace Acausal

/-! ## Tableaus -/

/-- The coefficients of a method of `s` stages; row `i` of `mix` weighs the slopes of the
first `i` stages. -/
structure Tableau (α : Type) (s : Nat) where
  mix : Vector (List α) s
  weights : Vector α s
  nodes : Vector α s

section
variable {α : Type} [Neg α] [Div α] [OfScientific α]

/-- The classic method of order four. -/
def classic : Tableau α 4 where
  mix := #v[[], [0.5], [0.0, 0.5], [0.0, 0.0, 1.0]]
  weights := #v[1.0 / 6.0, 1.0 / 3.0, 1.0 / 3.0, 1.0 / 6.0]
  nodes := #v[0.0, 0.5, 0.5, 1.0]

/-- A method of six stages and order five. -/
def fifthOrder : Tableau α 6 where
  mix := #v[[],
    [0.161],
    [-0.008480655492356989, 0.335480655492357],
    [2.897153057105493, -6.359448489975075, 4.3622954328695815],
    [5.325864828439257, -11.748883564062828, 7.4955393428898365, -0.09249506636175525],
    [5.86145544294642, -12.92096931784711, 8.159367898576159, -0.071584973281401,
      -0.028269050394068383]]
  weights := #v[0.09646076681806523, 0.01, 0.4798896504144996, 1.379008574103742,
    -3.290069515436081, 2.324710524099774]
  nodes := #v[0.0, 0.161, 0.327, 0.9, 0.9800255409045097, 1.0]

end

/-! ## Steps -/

namespace RungeKutta

/-- The slopes of the stages and the state at which the next slope is taken. -/
structure Scratch (α : Type) (n s : Nat) where
  slopes : Vector (Vector α n) s
  probe : Vector α n

variable {α : Type} {n s : Nat} [Zero α]

def Scratch.fresh : Scratch α n s := ⟨.replicate s (.replicate n 0), .replicate n 0⟩

variable [Add α] [Mul α] [Neg α]

/-- A weighted sum of one component of the slopes, in the order of the stages. It starts from
minus zero, which leaves the sign of a zero added to it as it is. -/
def weigh (weights : List α) (slopes : List (Vector α n)) (i : Fin n) : α :=
  (weights.zip slopes).foldl (fun sum (weight, slope) => sum + weight * slope.get i) (-0)

/-- A state moved along a weighted sum of slopes. -/
def move (x : Vector α n) (dt : α) (weights : List α) (slopes : List (Vector α n)) :
    Vector α n :=
  Vector.ofFn fun i => x.get i + dt * weigh weights slopes i

/-- One stage: probes a state and takes the slope there. -/
def stage (tableau : Tableau α s) (flow : Flow α n) (t : α) (x : Vector α n) (dt : α)
    (scratch : Scratch α n s) (i : Fin s) : Scratch α n s :=
  let probe := move x dt (tableau.mix.get i) scratch.slopes.toList
  { slopes := scratch.slopes.set i (flow.rate (t + tableau.nodes.get i * dt) probe) i.isLt
    probe := probe }

/-- A step of an explicit method, which never fails. -/
def step (tableau : Tableau α s) (flow : Flow α n) (scratch : Scratch α n s) (t : α)
    (x : Vector α n) (dt : α) : Advance α n (Scratch α n s) :=
  let scratch := (List.finRange s).foldl (stage tableau flow t x dt) scratch
  { time := t + dt
    state := move x dt tableau.weights.toList scratch.slopes.toList
    scratch := scratch
    failure := none }

end RungeKutta

end Acausal
