import ReleaseSeal.Text.Numeral

/-!
# Architectures

The names of processor types. A type without a name is shown by its number.
-/

namespace ReleaseSeal.MachO

/-- Marks the 64-bit variant of a processor type. -/
def cpuAbi64 : Int := 0x01000000

def cpuX86 : Int := 7

def cpuArm : Int := 12

def cpuPowerPC : Int := 18

/-- The 64-bit ARM type, whose subtypes have names of their own. -/
def cpuArm64 : Int := cpuArm + cpuAbi64

/-- The names of processor types. -/
def cpuNames : List (Int × String) :=
  [(cpuX86, "i386"), (cpuX86 + cpuAbi64, "x86_64"), (cpuArm, "arm"), (cpuArm64, "arm64"),
   (cpuArm + 0x02000000, "arm64_32"), (cpuPowerPC, "ppc"), (cpuPowerPC + cpuAbi64, "ppc64")]

/-- The name of an architecture. Of a subtype only the low 24 bits count. -/
def archName (cpuType cpuSubtype : Int) : String :=
  if cpuType = cpuArm64 && cpuSubtype % 0x1000000 = 2 then "arm64e"
  else (cpuNames.lookup cpuType).getD ("cpu_" ++ Text.hexLiteral cpuType)

end ReleaseSeal.MachO
