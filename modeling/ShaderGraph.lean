import ShaderGraph.CommandLine.Directory
import ShaderGraph.CommandLine.Program
import ShaderGraph.Main
import ShaderGraph.Proofs.Colors
import ShaderGraph.Proofs.Diagnosis
import ShaderGraph.Proofs.Directives
import ShaderGraph.Proofs.History
import ShaderGraph.Proofs.Latest
import ShaderGraph.Proofs.Literals
import ShaderGraph.Proofs.Locality
import ShaderGraph.Proofs.Members
import ShaderGraph.Proofs.Printing
import ShaderGraph.Proofs.Relexing
import ShaderGraph.Proofs.Reordering
import ShaderGraph.Proofs.Retention
import ShaderGraph.Proofs.TopLevel
import ShaderGraph.Proofs.UniformTypes
import ShaderGraph.Shader.Format
import ShaderGraph.Uniform.Value
import ShaderGraph.Proofs.Adjacency
import ShaderGraph.Proofs.Arguments
import ShaderGraph.Proofs.Matching
