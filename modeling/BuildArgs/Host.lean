import BuildArgs.Error
import BuildArgs.Json.Record
import BuildArgs.Value

/-!
The machine that a build runs on, and the six system arguments that every toolchain
context has before any build file runs.
-/

namespace BuildArgs

structure Host where
  os : String
  cpu : String
  deriving DecidableEq, Repr

namespace Host

/-- The tag of the operating system that the program was built for. Only Linux is modelled. -/
def systemTag : String := "linux"

def cpuTag (architecture : String) : Except ArgError String :=
  match architecture with
  | "x86" => .ok "x86"
  | "BePC" => .ok "x86"
  | "x86_64" => .ok "x64"
  | "aarch64" => .ok "arm64"
  | "arm64" => .ok "arm64"
  | "mips" => .ok "mipsel"
  | "mips64" => .ok "mips64el"
  | "s390x" => .ok "s390x"
  | "ppc64" => .ok "ppc64"
  | "ppc64le" => .ok "ppc64"
  | "riscv32" => .ok "riscv32"
  | "riscv64" => .ok "riscv64"
  | "e2k" => .ok "e2k"
  | "loongarch64" => .ok "loong64"
  | other =>
    if "arm".toList.isPrefixOf other.toList then .ok "arm" else .error (.unknownArchitecture other)

def detect (architecture : String) : Except ArgError Host :=
  (cpuTag architecture).map fun cpu => ⟨systemTag, cpu⟩

def systemNames : List String :=
  ["host_os", "host_cpu", "target_os", "target_cpu", "current_os", "current_cpu"]

def systemDefaults (host : Host) : NameMap Value :=
  .ofList [
    ("host_os", .string none host.os),
    ("host_cpu", .string none host.cpu),
    ("target_os", .string none ""),
    ("target_cpu", .string none ""),
    ("current_os", .string none ""),
    ("current_cpu", .string none "")]

theorem get?_systemDefaults_isSome_iff {host : Host} {name : String} :
    (host.systemDefaults.get? name).isSome ↔ name ∈ systemNames := by
  simp only [systemDefaults, SortedMap.ofList, SortedMap.insertList, List.foldl_cons,
    List.foldl_nil, SortedMap.get?_insert, Std.LawfulEqOrd.compare_eq_iff_eq, systemNames,
    List.mem_cons, List.not_mem_nil, or_false]
  repeat' split
  all_goals simp_all [SortedMap.empty, SortedMap.get?, SortedMap.lookup]

def toJson (host : Host) : Json :=
  .object [("os", .string host.os), ("cpu", .string host.cpu)]

def ofJson? (text : String) : Option Host := do
  let record ← Json.readRecord ["os", "cpu"] text
  return ⟨← record.text? "os", ← record.text? "cpu"⟩

end Host
end BuildArgs
