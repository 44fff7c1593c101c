import ShaderGraph.Compile.Registry

/-! Compilation: a node is compiled after all its inputs, once for every path
that leads to it. -/
namespace ShaderGraph

/-- Lets a node add its part. A reference to a uniform is compiled as the kind of
that uniform, with its value; data made from a uniform is never a reference
again, so one step resolves it. -/
def generate (registry : Registry) (graph : Graph) (generator : Generator) (node : Node)
    (pass : Pass) : Pass × Option RunError :=
  match generator, node.data.payload with
  | .uniform, .uniform id _ =>
    match graph.uniform? id with
    | none => (pass, none)
    | some u =>
      match registry.find? u.kind.name with
      | none => (pass, some (.unknownNodeKind node.id u.kind.name))
      | some target =>
        (target.emit graph { node with data := .ofUniform node.name u } pass, none)
  | _, _ => (generator.emit graph node pass, none)

/-- Does one thing for each id in turn, up to the first error. -/
def inTurn (step : String → Pass → Pass × Option RunError) :
    List String → Pass → Pass × Option RunError
  | [], pass => (pass, none)
  | id :: ids, pass =>
    match step id pass with
    | (pass, some error) => (pass, some error)
    | (pass, none) => inTurn step ids pass

/-- Lets a node whose inputs are compiled add its part, by its kind. -/
def compileNode (registry : Registry) (graph : Graph) (node : Node) (pass : Pass) :
    Pass × Option RunError :=
  match registry.find? node.kind with
  | none => (pass, some (.unknownNodeKind node.id node.kind))
  | some generator => generate registry graph generator node pass

/-- Compiles a node after its inputs. A node that is met while its own inputs are
compiled is on a cycle; so is every node beyond a path longer than the graph. -/
def visit (registry : Registry) (graph : Graph) : Nat → String → Pass → Pass × Option RunError
  | fuel, id, pass =>
    match graph.node? id with
    | none => (pass, none)
    | some node =>
      match fuel with
      | 0 => (pass, some (.cyclicGraph node.id))
      | fuel + 1 =>
        if pass.visiting.contains node.id then (pass, some (.cyclicGraph node.id))
        else
          let inputs := (graph.inputNodes node.id).map Node.id
          let entered := { pass with visiting := node.id :: pass.visiting }
          let outcome := match inTurn (visit registry graph fuel) inputs entered with
            | (pass, some error) => (pass, some error)
            | (pass, none) => compileNode registry graph node pass
          ({ outcome.1 with visiting := outcome.1.visiting.erase node.id }, outcome.2)

/-- Compiles a node and everything that it depends on; an id without a node is passed over. -/
def run (registry : Registry) (graph : Graph) (id : String) (pass : Pass) :
    Pass × Option RunError :=
  visit registry graph (graph.nodes.length + 1) id pass

/-- Compiles the shader that a node shows. -/
def compile (registry : Registry) (graph : Graph) (sink : String) :
    Except RunError CompiledShader :=
  match run registry graph sink {} with
  | (_, some error) => .error error
  | (pass, none) => .ok pass.finish

end ShaderGraph
