-- The standard library that comes with the program, in its editions. An edition differs from
-- the others in its number and in how exactly it gives two constants of nature.

namespace Acausal

/-! ## Editions -/

structure Edition where
  number : String
  pi : String
  gravitation : String

namespace Edition

def all : List Edition := [
  ⟨"3.2.3", "3.14159265358979", "6.6742e-11"⟩,
  ⟨"4.0.0", "3.141592653589793", "6.67430e-11"⟩]

/-- The version by which an edition is asked for. -/
def version (edition : Edition) : String := "MSL:" ++ edition.number

def fileName (edition : Edition) : String := "Modelica-" ++ edition.number ++ ".mo"

/-- The lines of the source text of an edition. -/
def lines (edition : Edition) : List String := [
  "within;",
  "package Modelica \"Modelica Standard Library - Version " ++ edition.number ++ " (subset)\"",
  "  package Constants \"Mathematical and physical constants\"",
  "    constant Real pi = " ++ edition.pi ++ ";",
  "    constant Real e = exp(1.0);",
  "    constant Real g_n = 9.80665 \"Standard acceleration of gravity on earth\";",
  "    constant Real G = " ++ edition.gravitation ++ " \"Newtonian constant of gravitation\";",
  "  end Constants;",
  "",
  "  package Blocks \"Input/output blocks\"",
  "    package Continuous \"Continuous control blocks with internal states\"",
  "      block FirstOrder \"First order transfer function block\"",
  "        parameter Real k = 1 \"Gain\";",
  "        parameter Real T = 1 \"Time constant\";",
  "        parameter Real u = 1 \"Constant input\";",
  "        Real y(start = 0) \"Output\";",
  "      equation",
  "        der(y) = (k * u - y) / T;",
  "      end FirstOrder;",
  "",
  "      block Integrator \"Output the integral of the input\"",
  "        parameter Real k = 1 \"Integrator gain\";",
  "        parameter Real u = 1 \"Constant input\";",
  "        Real y(start = 0) \"Output\";",
  "      equation",
  "        der(y) = k * u;",
  "      end Integrator;",
  "    end Continuous;",
  "  end Blocks;",
  "",
  "  package Mechanics \"Library of 1-dim. and 3-dim. mechanical models\"",
  "    package Translational \"Library to model 1-dimensional, translational mechanical systems\"",
  "      model Oscillator \"Mass on a damped spring\"",
  "        parameter Real m = 1 \"Mass\";",
  "        parameter Real c = 1 \"Spring constant\";",
  "        parameter Real d = 0 \"Damping constant\";",
  "        Real s(start = 1) \"Position\";",
  "        Real v(start = 0) \"Velocity\";",
  "      equation",
  "        der(s) = v;",
  "        der(v) = (-c * s - d * v) / m;",
  "      end Oscillator;",
  "    end Translational;",
  "",
  "    package Rotational \"Library to model 1-dimensional, rotational mechanical systems\"",
  "      model Pendulum \"Ideal pendulum\"",
  "        parameter Real L = 1 \"Length\";",
  "        Real phi(start = 0.5) \"Angle\";",
  "        Real w(start = 0) \"Angular velocity\";",
  "      equation",
  "        der(phi) = w;",
  "        der(w) = -Modelica.Constants.g_n / L * sin(phi);",
  "      end Pendulum;",
  "    end Rotational;",
  "  end Mechanics;",
  "end Modelica;"]

/-- The source text of an edition. -/
def text (edition : Edition) : String := String.join (edition.lines.map (· ++ "\n"))

end Edition

/-! ## Versions -/

/-- The version that is used unless another one is configured. -/
def defaultVersion : String := "MSL:3.2.3"

/-- A version with its tag, which may be left out where one is asked for. -/
def taggedVersion (version : String) : String :=
  if "MSL:".toList.isPrefixOf version.toList then version else "MSL:" ++ version

/-- The versions there are. -/
def versions : List String := Edition.all.map (·.version)

/-- A version that there is no edition of. -/
structure UnknownVersion where
  version : String
  deriving DecidableEq, Repr

def UnknownVersion.message (e : UnknownVersion) : String :=
  "unknown standard library version `" ++ e.version ++ "` (available: " ++
    ", ".intercalate versions ++ ")"

/-- The edition of a version, with or without its tag. -/
def edition (version : String) : Except UnknownVersion Edition :=
  match Edition.all.find? (·.version == taggedVersion version) with
  | some found => .ok found
  | none => .error ⟨version⟩

end Acausal
