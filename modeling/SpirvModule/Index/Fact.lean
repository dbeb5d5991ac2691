import SpirvModule.Instruction

/-!
# Facts

Instructions tell facts about ids and names: the descriptor set or slot of a
resource, a debug name, an imported instruction set, an entry point. A fact is
about one subject, and about one subject several facts may be told; the one told
first in the module holds.

* `Fact.ofInstruction?`: the fact an instruction tells.
-/
namespace SpirvModule

/-- What a fact is about. -/
inductive Subject where
  | set (target : Id)
  | slot (target : Id)
  | name (target : Id) (member : Option Word)
  | extInstImport (name : String)
  | entry (function : Id)
  deriving DecidableEq

/-- What an instruction tells. -/
inductive Fact where
  | set (target : Id) (value : Word)
  | slot (target : Id) (value : Word)
  | name (target : Id) (member : Option Word) (text : String)
  | extInstImport (name : String) (id : Id)
  | entry (function : Id)
  deriving DecidableEq

namespace Fact

/-- What a fact is about. -/
def subject : Fact → Subject
  | set t _ => .set t
  | slot t _ => .slot t
  | name t m _ => .name t m
  | extInstImport n _ => .extInstImport n
  | entry f => .entry f

/-- The fact of a decoration. Only a descriptor set or slot with a value tells one. -/
def ofDecorate? (inst : Instruction) : Option Fact :=
  match inst.operands with
  | target :: decoration :: value :: _ =>
    (Id.ofWord? target).bind fun t =>
      if decoration = Decoration.descriptorSet.value then some (.set t value)
      else if decoration = Decoration.binding.value then some (.slot t value)
      else none
  | _ => none

/-- The fact an instruction tells. -/
def ofInstruction? (inst : Instruction) : Option Fact :=
  match inst.opcode? with
  | none => none
  | some op =>
    if op = .opDecorate then ofDecorate? inst
    else if op = .opName then
      (inst.idOperand? 0).bind fun t => (inst.stringOperand? 1).map fun s => .name t none s
    else if op = .opMemberName then
      (inst.idOperand? 0).bind fun t => inst.operands[1]?.bind fun m =>
        (inst.stringOperand? 2).map fun s => .name t (some m) s
    else if op = .opExtInstImport then
      inst.resultId?.bind fun i => (inst.stringOperand? 1).map fun s => .extInstImport s i
    else if op = .opEntryPoint then (inst.idOperand? 1).map .entry
    else none

end Fact

end SpirvModule
