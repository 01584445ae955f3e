import HplfMalloc.State

/-!
# Mapping and unmapping

`os_memory.c`: page-size query, mapping and unmapping, each failing as the world decides.
-/

namespace Hplf

variable {Tid : Type} [DecidableEq Tid]

def osPageSize (w : World) (s : State Tid) (t : Tid) : State Tid × Option Nat :=
  let queried := w.sysconf s.pageQueries
  let s := { s with pageQueries := s.pageQueries + 1 }
  if queried ≤ 0 ∨ queried.toNat > sizeMax then
    (s.setErrno t .EINVAL, none)
  else
    (s, some queried.toNat)

def osMap (w : World) (s : State Tid) (t : Tid) (minimumLength : Nat) :
    State Tid × Option Mapping :=
  if minimumLength = 0 then
    (s.setErrno t .EINVAL, none)
  else
    match osPageSize w s t with
    | (s, none) => (s, none)
    | (s, some pageSize) =>
        match sizeRoundUpMultiple minimumLength pageSize with
        | none => (s.setErrno t .ENOMEM, none)
        | some mappingLength =>
            let answer := w.mmap s.mapOutcomes.length s.mappings mappingLength
            let s := { s with mapOutcomes := s.mapOutcomes ++ [answer.isOk] }
            match answer with
            | .error e => (s.setErrno t e, none)
            | .ok base =>
                let mapping : Mapping := ⟨base, mappingLength⟩
                ({ s with
                    mapped := mapping :: s.mapped
                    memory := s.memory.mapRegion base mappingLength }, some mapping)

/-- Returns the released length. A successful call destroys whatever the region held. -/
def osUnmap (w : World) (s : State Tid) (t : Tid) (mapping : Mapping) : State Tid × Option Nat :=
  if mapping.base = 0 ∨ mapping.length = 0 then
    (s.setErrno t .EINVAL, none)
  else
    let answer := w.munmap s.unmapCalls.length
    let s := { s with unmapCalls := s.unmapCalls ++ [mapping] }
    match answer with
    | some e => (s.setErrno t e, none)
    | none =>
        ({ s with
            mapped := s.mapped.erase mapping
            memory := s.memory.clobber mapping.base mapping.length }, some mapping.length)

end Hplf
