import Soot.Program.VirtualMachine

/-!
# One virtual machine for every run

`VirtualMachine::execute` when a native function called by `CallFf` runs script code itself:
`spawn` its enter handler, `send` an event handler, `kill` and `go-state` the exit and enter
handlers, loading a module its top-level code. All of them call `execute` on the one machine,
so the frame pointer, the error flag and the yield flag belong to every run at once.

Frames are objects with an identity, the index of their cell, because what matters here is
which frame the machine points to. A native function is a tree of the nested runs it makes:
what it does next depends on how a run ended and on what it left in the shared flags and in
memory. Nested runs start on a new frame without a parent, as those natives make them. A frame
whose last owner is gone is kept here; the source would have freed it.
-/

set_option autoImplicit false

namespace Soot.Program

/-- A frame and the frame it returns to. SRCLINE: StackFrame.hpp:51-90 -/
structure FrameCell where
  frame : StackFrame
  parent : Option ℕ

/-- What the machine shares with the native functions: memory, `m_has_error`, `is_yielded`. -/
structure Shared where
  memory : Memory
  hasError : Bool
  isYielded : Bool

/-- The machine: every frame made so far, `current_frame`, and the shared part.
SRCLINE: VirtualMachine.hpp:42-60 -/
structure Vm where
  frames : List FrameCell
  currentFrame : Option ℕ
  shared : Shared

/-- How a run of the loop ends: with a value, by an assertion of the instruction fetch, which
is thrown outside the `try` block, or in undefined behaviour. -/
inductive RunOutcome where
  | returned (value : Variant)
  | escaped
  | undefined

/-- A call of a native function: it returns a value (and `should_yield` of the current process
is set or not), throws, or runs a frame on the machine and goes on from there. -/
inductive NativeCall where
  | returns (value : Variant) (shared : Shared) (shouldYield : Bool)
  | throws (kind : VmErrorKind) (shared : Shared)
  | runs (frame : StackFrame) (shared : Shared) (resume : RunOutcome → Shared → NativeCall)

inductive NativeOutcome where
  | returned (value : Variant) (shouldYield : Bool)
  | threw (kind : VmErrorKind)
  | undefined

/-- What one iteration of the loop does: it leaves the machine for the next iteration, ends
the run, or calls a native function whose value goes to register `dst` of `frame`. -/
inductive Iteration where
  | next (vm : Vm)
  | ends (outcome : RunOutcome) (vm : Vm)
  | native (vm : Vm) (frame dst : ℕ) (call : NativeCall)

namespace Vm

def setFrame (vm : Vm) (F : ℕ) (f : StackFrame) : Vm :=
  { vm with frames := vm.frames.modify F fun c => { c with frame := f } }

def put (vm : Vm) (F dst : ℕ) (v : Variant) : Vm :=
  { vm with frames := vm.frames.modify F fun c => { c with frame := c.frame.put dst v } }

def push (vm : Vm) (c : FrameCell) : Vm :=
  { vm with frames := vm.frames ++ [c], currentFrame := some vm.frames.length }

/-- Record an error. SRCLINE: VirtualMachine.cpp:1048-1057 -/
def setError (vm : Vm) : Vm := { vm with shared := { vm.shared with hasError := true } }

/-- `current_frame.reset()`. -/
def drop (vm : Vm) : Vm := { vm with currentFrame := none }

/-- The entry of `execute(frame)`: the frame becomes the current one and the error flag is
cleared. SRCLINE: VirtualMachine.cpp:55-58, 76-80 -/
def enter (vm : Vm) (f : StackFrame) : Vm :=
  { vm.push ⟨f, none⟩ with shared := { vm.shared with hasError := false } }

end Vm

section Loop

variable (rt : Runtime) (native : Word → List Variant → Shared → NativeCall)

/-- `Return`: a frame without a parent, or whose parent has no code, ends the run and leaves
the machine without a current frame. SRCLINE: VirtualMachine.cpp:109-131 -/
def returnFrom (vm : Vm) (c : FrameCell) (v : Variant) : Iteration :=
  match c.parent with
  | none => .ends (.returned v) vm.drop
  | some P =>
    match vm.frames[P]? with
    | none => .ends .undefined vm
    | some p =>
      if p.frame.lambda.isNone then .ends (.returned v) vm.drop
      else
        match p.frame.getRegister c.frame.retNum with
        | .error _ => .next vm.setError
        | .ok _ => .next { vm.put P c.frame.retNum v with currentFrame := some P }

/-- What the loop does with the outcome of an instruction other than `CallFf`. -/
def settleShared (vm : Vm) (F : ℕ) (c : FrameCell) : Except VmErrorKind Effect → Iteration
  | .error _ => .next vm.setError
  | .ok (.continue f m) =>
    .next { vm.setFrame F f with shared := { vm.shared with memory := m } }
  | .ok (.leave v) => returnFrom vm c v
  | .ok (.enter target f dst argc) =>
    match rt.lambdaAt target with
    | none => .ends .undefined vm
    | some l =>
      match pushCallFrame l f dst argc with
      | .error _ => .next (vm.setFrame F f).setError
      | .ok callee => .next ((vm.setFrame F f).push ⟨callee, some F⟩)
  | .ok (.yield _ _ _) => .ends .undefined vm
  | .ok .drop => .next vm.drop
  | .ok .undefined => .ends .undefined vm

/-- The native function `CallFf` calls, if it can be resolved.
SRCLINE: VirtualMachine.cpp:180-210 -/
def resolveNative (f : StackFrame) (i : Instruction) : Except VmErrorKind (Option Word) := do
  match ← f.getRegister i.b with
  | .pointer p => return some p
  | .int sid => return rt.findNativeFunction sid
  | _ => return none

/-- `CallFf`, up to the call itself; the destination is bound before it.
SRCLINE: VirtualMachine.cpp:180-217 -/
def callNativeFrom (vm : Vm) (F : ℕ) (f : StackFrame) (i : Instruction) : Iteration :=
  match resolveNative rt f i, f.getRegister i.a with
  | .error _, _ => .next vm.setError
  | .ok none, _ => .next vm.drop
  | .ok (some _), .error _ => .next vm.setError
  | .ok (some p), .ok _ => .native vm F i.a (native p (arguments f i.c) vm.shared)

/-- One iteration of the loop of `execute`. SRCLINE: VirtualMachine.cpp:83-107 -/
def iterate (vm : Vm) : Iteration :=
  match vm.currentFrame with
  | none => .ends (.returned .null) vm
  | some F =>
    if vm.shared.hasError then .ends (.returned .null) vm
    else
      match vm.frames[F]? with
      | none => .ends .undefined vm
      | some c =>
        match c.frame.lambda with
        | none => .ends .escaped vm
        | some l =>
          if c.frame.pc < StackFrame.codeSize then
            match l.code[c.frame.pc]? with
            | none => .ends .undefined vm
            | some i =>
              let f := c.frame.advance
              if i.opcode = .CallFf then callNativeFrom rt native (vm.setFrame F f) F f i
              else
                settleShared rt (vm.setFrame F f) F ⟨f, c.parent⟩ (exec rt vm.shared.memory f i)
          else .ends .escaped vm

/-- `CallFf`, after the call: the value goes to the register bound before the call, and the
loop goes on with whatever `current_frame` is by then.
SRCLINE: VirtualMachine.cpp:217-233, 1024-1041 -/
def afterNative (vm : Vm) (F dst : ℕ) : NativeOutcome → Vm ⊕ RunOutcome × Vm
  | .returned v true =>
    .inr (.returned v, { vm.put F dst v with shared := { vm.shared with isYielded := true } })
  | .returned v false => .inl (vm.put F dst v)
  | .threw _ => .inl vm.setError
  | .undefined => .inr (.undefined, vm)

/-- A native call on the machine: each nested run is a run of `execute` on a new frame. -/
def runNative (execute : Vm → Option (RunOutcome × Vm)) :
    Vm → NativeCall → Option (NativeOutcome × Vm)
  | vm, .returns v s y => some (.returned v y, { vm with shared := s })
  | vm, .throws k s => some (.threw k, { vm with shared := s })
  | vm, .runs f s resume =>
    match execute (Vm.enter { vm with shared := s } f) with
    | none => none
    | some (.undefined, vm') => some (.undefined, vm')
    | some (o, vm') => runNative execute vm' (resume o vm'.shared)

/-- The loop of `execute`, for at most `n` iterations on every level of nesting; `none` when
that was not enough. SRCLINE: VirtualMachine.cpp:76-1046 -/
def execute : ℕ → Vm → Option (RunOutcome × Vm)
  | 0, _ => none
  | n + 1, vm =>
    match iterate rt native vm with
    | .next vm' => execute n vm'
    | .ends o vm' => some (o, vm')
    | .native vm' F dst call =>
      match runNative (execute n) vm' call with
      | none => none
      | some (o, vm'') =>
        match afterNative vm'' F dst o with
        | .inl vm₁ => execute n vm₁
        | .inr r => some r

end Loop

end Soot.Program
