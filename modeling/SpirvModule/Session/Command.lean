import SpirvModule.Session.Declare

/-!
# Commands

A command is an edit as a value: which edit it is, and with what arguments. A
client that speaks to a session from outside sends commands, and what can happen
to a session is what a list of commands can do to it.

* `Command.edit`: the edit a command stands for.
* `Command.offset?`: the place in the module that a command speaks of.
* `Session.perform`: the answer to a command, and the session afterwards.
-/
namespace SpirvModule

/-- An edit with its arguments. -/
inductive Command where
  | newId
  | insert (offset : Nat) (op : Operation)
  | replace (offset : Nat) (op : Operation)
  | remove (offset : Nat)
  | beginModify (offset : Nat)
  | operands (offset : Nat) (change : OperandChange)
  | endModify (offset : Nat)
  | modifyOperands (offset : Nat) (change : OperandChange)
  | declareType (key : TypeKey)
  | declareStruct (members : List Id)
  | addType (op : Operation)
  | addConstant (op : Operation)
  | addVariable (op : Operation)
  | addConstantImmediate (value : Immediate)
  | addSpecConstantImmediate (value : Immediate) (specId : Word)
  | addDecoration (op : Operation)
  | addExecutionMode (op : Operation)
  | addCapability (capability : Capability)
  | addExtension (name : String)
  | importExtInst (name : String)
  | decorateStorageBuffer (target : Id)
  | setName (target : Id) (text : String)
  | setMemberName (target : Id) (member : Word) (text : String)
  | addFunction (ops : List Operation)

/-- What a session answers to a command. -/
inductive Answer where
  | done
  | id (i : Id)
  | defined (i : Option Id)
  | operands (ws : List Word)
  deriving DecidableEq

namespace Command

/-- The offset that a command speaks of. The others find their place themselves. -/
def offset? : Command → Option Nat
  | insert p _ | replace p _ | remove p => some p
  | beginModify p | operands p _ | endModify p | modifyOperands p _ => some p
  | _ => none

/-- The edit that a command stands for. -/
def edit : Command → Edit Answer
  | newId => return .id (← Edit.newId)
  | insert p op => return .defined (← Edit.insert p op)
  | replace p op => return .defined (← Edit.replace p op)
  | remove p => do Edit.remove p; return .done
  | beginModify p => do Edit.beginModify p; return .done
  | operands p change => return .operands (← Edit.operands p change)
  | endModify p => do Edit.endModify p; return .done
  | modifyOperands p change => do Edit.modifyOperands p change; return .done
  | declareType k => return .id (← Edit.declareType k)
  | declareStruct members => return .id (← Edit.declareStruct members)
  | addType op => return .id (← Edit.addType op)
  | addConstant op => return .id (← Edit.addConstant op)
  | addVariable op => return .id (← Edit.addVariable op)
  | addConstantImmediate v => return .id (← Edit.addConstantImmediate v)
  | addSpecConstantImmediate v n => return .id (← Edit.addSpecConstantImmediate v n)
  | addDecoration op => do Edit.addDecoration op; return .done
  | addExecutionMode op => do Edit.addExecutionMode op; return .done
  | addCapability c => do Edit.addCapability c; return .done
  | addExtension name => do Edit.addExtension name; return .done
  | importExtInst name => return .id (← Edit.importExtInst name)
  | decorateStorageBuffer i => do Edit.decorateStorageBuffer i; return .done
  | setName i text => do Edit.setName i text; return .done
  | setMemberName i m text => do Edit.setMemberName i m text; return .done
  | addFunction ops => do Edit.addFunction ops; return .done

end Command

/-- The answer to a command, or why there is none, and the session afterwards. -/
def Session.perform (s : Session) (c : Command) : Except Failure Answer × Session := c.edit.run s

end SpirvModule
