import WebShader.Primitive
import WebShader.Stage
import WebShader.Target

/-!
# Built-in variables

The variables a pipeline provides to a stage or reads back from it, with their type and spelling
on each target.
-/

namespace WebShader

/-- A built-in variable. -/
inductive Builtin where
  | vertexIndex
  | instanceIndex
  | position
  | pointSize
  | fragCoord
  | frontFacing
  | fragDepth
  | globalInvocationId
  | localInvocationId
  | localInvocationIndex
  | workgroupId
  | numWorkgroups
  deriving DecidableEq

namespace Builtin

/-- Every built-in variable. -/
def all : List Builtin :=
  [vertexIndex, instanceIndex, position, pointSize, fragCoord, frontFacing, fragDepth,
    globalInvocationId, localInvocationId, localInvocationIndex, workgroupId, numWorkgroups]

/-- The name of the built-in in messages. -/
def name : Builtin → String
  | vertexIndex => "VertexIndex"
  | instanceIndex => "InstanceIndex"
  | position => "Position"
  | pointSize => "PointSize"
  | fragCoord => "FragCoord"
  | frontFacing => "FrontFacing"
  | fragDepth => "FragDepth"
  | globalInvocationId => "GlobalInvocationId"
  | localInvocationId => "LocalInvocationId"
  | localInvocationIndex => "LocalInvocationIndex"
  | workgroupId => "WorkgroupId"
  | numWorkgroups => "NumWorkgroups"

/-- The built-in whose name is `s`. -/
def ofName? (s : String) : Option Builtin := all.find? (·.name == s)

/-- The stage that has the built-in. -/
def stage : Builtin → Stage
  | vertexIndex | instanceIndex | position | pointSize => .vertex
  | fragCoord | frontFacing | fragDepth => .fragment
  | _ => .compute

/-- Whether the stage writes the built-in. -/
def isOutput : Builtin → Bool
  | position | pointSize | fragDepth => true
  | _ => false

/-- The feature the built-in needs. -/
def feature? : Builtin → Option Feature
  | vertexIndex | instanceIndex => some .vertexIndex
  | pointSize => some .pointSize
  | _ => none

/-- The type of the built-in; indices are unsigned in WGSL and signed in GLSL. -/
def type (target : Target) : Builtin → PrimitiveType
  | vertexIndex | instanceIndex | localInvocationIndex =>
    .ofScalar (if target == .webGPU then .u32 else .i32)
  | position | fragCoord => .vector .f32 4
  | pointSize | fragDepth => .ofScalar .f32
  | frontFacing => .ofScalar .bool
  | _ => .vector .u32 3

/-- The GLSL variable of the built-in. -/
def glslName (target : Target) : Builtin → String
  | vertexIndex => "gl_VertexID"
  | instanceIndex => "gl_InstanceID"
  | position => "gl_Position"
  | pointSize => "gl_PointSize"
  | fragCoord => "gl_FragCoord"
  | frontFacing => "gl_FrontFacing"
  | fragDepth => if target == .webGL then "gl_FragDepthEXT" else "gl_FragDepth"
  | globalInvocationId => "gl_GlobalInvocationID"
  | localInvocationId => "gl_LocalInvocationID"
  | localInvocationIndex => "gl_LocalInvocationIndex"
  | workgroupId => "gl_WorkGroupID"
  | numWorkgroups => "gl_NumWorkGroups"

/-- The WGSL attribute of the built-in. -/
def wgslName : Builtin → String
  | vertexIndex => "vertex_index"
  | instanceIndex => "instance_index"
  | position | fragCoord => "position"
  | pointSize => "point_size"
  | frontFacing => "front_facing"
  | fragDepth => "frag_depth"
  | globalInvocationId => "global_invocation_id"
  | localInvocationId => "local_invocation_id"
  | localInvocationIndex => "local_invocation_index"
  | workgroupId => "workgroup_id"
  | numWorkgroups => "num_workgroups"

/-- The member that holds the built-in in the WGSL interface of its stage. -/
def memberName : Builtin → String
  | fragCoord => "builtin_frag_coord"
  | b => "builtin_" ++ b.wgslName

theorem mem_all (b : Builtin) : b ∈ all := by cases b <;> decide

end Builtin

end WebShader
